import WqSource.Proofs.Complete.Program
import WqSource.Proofs.Token.Tiling
import WqSource.Proofs.Tree.Balance
import WqSource.Proofs.Tree.Spacing

/-!
# The text of a program has the tokens it was written with

Pieces that may stand side by side are read back from their text one by one, whatever the
layout is. Lines for the host are lines for the host again, because all brackets in front of
them are closed and they are first on their lines. What is lost is a carriage return at the end
of such a line, or of the shebang line.

## Main definitions

* `Token.Kind.HostLines`: where lines for the host stand.
* `Program.Writable`: the programs whose tokens a text can have.
* `Program.readBack`: what a program is when it is read again.

## Main statements

* `shows_of_pieces`: pieces.
* `Program.Writable.shows`: programs.
-/

namespace WqSource
open Grammar
open Piece (Beside)
open Token.Kind (readBack)

/-! ## Pieces -/

/-- Lines for the host stand first on their lines and outside all brackets, the number of which
is given in front of the tokens. -/
def Token.Kind.HostLines : Bool → Nat → List Token.Kind → Prop
  | _, _, [] => True
  | lineStart, depth, k :: ks =>
    (∀ payload, k = magic payload → lineStart = true ∧ depth = 0) ∧
      HostLines (k == newline) (k.depthAfter depth) ks

open Token.Kind (HostLines)

/-- What may stand behind a token in a list of pieces does not make it longer. -/
theorem endsBefore_of_chain {k : Token.Kind} {ps : List Piece}
    (hchain : (Piece.token k :: ps).IsChain Beside) (hgap : .gap ∉ ps)
    (hvalid : ∀ k ∈ Piece.kinds ps, k.Valid) :
    k.EndsBefore (ps.flatMap Layout.compact.characters) := by
  cases ps with
  | nil => exact Token.Kind.endsBefore_nil
  | cons p ps =>
    have hbeside := (List.isChain_cons.1 hchain).1 p rfl
    cases p with
    | token k' => exact hbeside.1 (hvalid k' (by simp)) _
    | blank => exact hbeside _
    | gap => exact absurd (by simp) hgap

theorem isGap_of_spaces {gap behind : List Char} (h : ∀ c ∈ gap, c = ' ') : IsGap behind gap := by
  refine .blanks fun c hc => ?_
  rw [h c hc]
  decide

/-- Tokens and blanks are read back from their text. The lexer may stand in front of blanks. -/
theorem shows_of_pieces {ps : List Piece} (hchain : ps.IsChain Beside) (hgap : .gap ∉ ps)
    (hvalid : ∀ k ∈ Piece.kinds ps, k.Valid ∧ ∀ text, k ≠ .shebang text) {l : Lexer}
    {gap : List Char} (hspaces : ∀ c ∈ gap, c = ' ')
    (hrest : l.rest = gap ++ ps.flatMap Layout.compact.characters) (hshebang : l.shebang? = none)
    (hlines : HostLines l.lineStart l.depth (Piece.kinds ps)) {stop : Nat}
    (hopen : ∀ qs, ps = .punct .openBracket :: qs → gap = [] ∧ l.position.offset = stop) :
    l.stream.Shows ((Piece.kinds ps).map readBack) stop := by
  induction ps generalizing l gap stop with
  | nil =>
    rw [List.flatMap_nil, List.append_nil] at hrest
    have hnext := Lexer.next_of_isGap (hrest ▸ isGap_of_spaces hspaces) hshebang
    rw [Lexer.stream_eq, hnext]
    exact .ended _ _
  | cons p ps ih =>
    have htail := hchain.tail
    have hgap' : .gap ∉ ps := fun h => hgap (List.mem_cons_of_mem _ h)
    cases p with
    | gap => exact absurd (List.mem_cons_self ..) hgap
    | blank =>
      have hmore : ∀ c ∈ gap ++ [' '], c = ' ' := List.forall_mem_append.2 ⟨hspaces, by simp⟩
      refine ih htail hgap' hvalid hmore ?_ hshebang hlines ?_
      · rw [hrest, List.flatMap_cons, List.append_assoc]
        rfl
      · rintro qs rfl
        exact absurd rfl ((List.isChain_cons.1 hchain).1 _ rfl)
    | token k =>
      obtain ⟨⟨hk, hnot⟩, hrestValid⟩ := List.forall_mem_cons.1 hvalid
      have hends := endsBefore_of_chain hchain hgap' fun k hk => (hrestValid k hk).1
      have hfinds : l.Finds gap k.spelling (ps.flatMap Layout.compact.characters) k.readBack := by
        refine ⟨hrest, isGap_of_spaces hspaces, hk.lexeme hnot,
          Token.Kind.endsBefore_readBack.2 hends, ?_⟩
        intro payload hmagic
        obtain ⟨payload', rfl⟩ : ∃ payload', k = .magic payload' := by
          cases k <;> cases hmagic
          exact ⟨_, rfl⟩
        obtain ⟨hstart, hdepth⟩ := hlines.1 payload' rfl
        simp [Lexer.atHostLine, hstart, hdepth]
      have hne : k.readBack ≠ .endOfInput := hfinds.lexeme.kind_ne.1
      rw [Lexer.stream_of_next (hfinds.next hshebang) hne]
      refine .token (t := l.tokenBehind gap k.spelling k.readBack) hne ?_ ?_
      · intro hbracket
        obtain rfl := Token.Kind.readBack_eq_openBracket.1 hbracket
        obtain ⟨rfl, hstop⟩ := hopen ps rfl
        exact hstop
      · have hnone : ∀ c ∈ ([] : List Char), c = ' ' := by simp
        refine ih htail hgap' hrestValid hnone rfl hfinds.shebang?_moved ?_ ?_
        · have hnewline : (k.readBack == .newline) = (k == .newline) := by
            rw [Bool.eq_iff_iff, beq_iff_eq, beq_iff_eq]
            exact Token.Kind.readBack_eq_newline
          simp only [Lexer.moved, hnewline, Token.Kind.depthAfter_readBack]
          exact hlines.2
        · exact fun _ _ => ⟨rfl, rfl⟩

/-- What is shown by a stream are its tokens, and the end. -/
theorem TokenStream.Shows.tokens {ks : List Token.Kind} {stop : Nat} {s : TokenStream}
    (h : s.Shows ks stop) :
    ∃ ts, s.tokens = .ok ts ∧ ts.map Token.kind = ks ++ [.endOfInput] := by
  induction h with
  | ended place => exact ⟨_, rfl, rfl⟩
  | @token t ks stop rest _ _ _ ih =>
    obtain ⟨ts, hts, hks⟩ := ih
    refine ⟨t :: ts, ?_, by simp [hks]⟩
    rw [TokenStream.tokens, hts]
    rfl

/-- A text of pieces does not begin with a shebang line. -/
theorem shebang?_of_pieces {ps : List Piece} (hchain : ps.IsChain Beside) (hgap : .gap ∉ ps)
    (hvalid : ∀ k ∈ Piece.kinds ps, k.Valid ∧ ∀ text, k ≠ .shebang text) {l : Lexer}
    (hrest : l.rest = ps.flatMap Layout.compact.characters) : l.shebang? = none := by
  simp only [Lexer.shebang?]
  split
  · next cs _ htext =>
    exfalso
    rw [htext] at hrest
    cases ps with
    | nil => cases hrest
    | cons p ps =>
      cases p with
      | gap => exact hgap (List.mem_cons_self ..)
      | blank => cases hrest
      | token k =>
        obtain ⟨hk, hnot⟩ := hvalid k (by simp)
        have hvalid' : ∀ k ∈ Piece.kinds ps, k.Valid := fun k hk => (hvalid k (by simp [hk])).1
        have hgap' : .gap ∉ ps := fun h => hgap (List.mem_cons_of_mem _ h)
        have hends := endsBefore_of_chain hchain hgap' hvalid'
        have hscan := (hk.lexeme hnot).scan_eq (Token.Kind.endsBefore_readBack.2 hends)
          fun _ _ => rfl (a := true)
        have hhash : scan true ('#' :: '!' :: cs) = .read ['#'] (.ok (.punct .hash)) := rfl
        have hsplit : '#' :: '!' :: cs = k.spelling ++ ps.flatMap Layout.compact.characters := hrest
        rw [← hsplit, hhash] at hscan
        obtain ⟨hspelling, hreadBack⟩ := Scan.read.inj hscan
        obtain rfl : k = .punct .hash := by
          cases k <;> cases Except.ok.inj hreadBack
          rfl
        -- Behind the hash there is its operand.
        have htail : '!' :: cs = ps.flatMap Layout.compact.characters := (List.cons.inj hsplit).2
        cases ps with
        | nil => cases htail
        | cons q qs =>
          have hbeside := (List.isChain_cons.1 hchain).1 q rfl
          cases q with
          | gap => exact hgap' (List.mem_cons_self ..)
          | blank => cases htail
          | token k' =>
            obtain ⟨c, tail, hspelled, -, hc⟩ :=
              (hvalid' k' (by simp)).spelling_eq_cons (hbeside.2 rfl)
            have hmark : '!' :: cs = k'.spelling ++ qs.flatMap Layout.compact.characters := htail
            rw [hspelled] at hmark
            rw [← (List.cons.inj hmark).1] at hc
            exact hc (by simp)
  · rfl

/-! ## Lines -/

/-- What may stand behind a line feed. -/
def Piece.BeginsLine (p : Piece) : Prop := (token .newline).Beside p

/-- What may stand in front of a line feed. -/
def Piece.EndsLine (p : Piece) : Prop := p.Beside (token .newline)

open Piece (BeginsLine EndsLine)

/-- A statement may be a line. -/
theorem Statement.run {l : Layout} {s : Statement} (hs : s.Regular) :
    l.Run BeginsLine EndsLine s.pieces := by
  cases s with
  | expression e =>
    refine (Expr.phrase (show e.Regular maxDepth from hs)).mono ?_ ?_
    · exact fun _ => Piece.precedes_newline.beside
    · exact fun _ hp => hp.beside Piece.follows_newline
  | magic span payload =>
    refine (Layout.Run.token _).mono ?_ ?_
    · rintro p rfl
      exact Piece.beside_of_parts (Token.Kind.newline_parts_magic payload) nofun
    · rintro p rfl
      refine Piece.beside_of_parts (fun _ rest c hc => ?_) nofun
      exact (Option.some.inj hc).symm

theorem hostLines_append {lineStart : Bool} {depth : Nat} {ks ls : List Token.Kind}
    (hcode : ∀ k ∈ ks, k.isCode = true)
    (h : ∀ b, HostLines b (Token.Kind.depthBehind depth ks) ls) :
    HostLines lineStart depth (ks ++ ls) := by
  induction ks generalizing lineStart depth with
  | nil => exact h lineStart
  | cons k ks ih =>
    obtain ⟨hk, hks⟩ := List.forall_mem_cons.1 hcode
    refine ⟨?_, ih hks h⟩
    rintro payload rfl
    cases hk

/-- Statements on lines of their own are where lines for the host may stand. -/
theorem hostLines_statement {s : Statement} (hs : s.Regular) {ks : List Token.Kind}
    (h : ∀ b, HostLines b 0 ks) : HostLines true 0 (s.kinds ++ ks) := by
  cases s with
  | expression e =>
    have hbalanced := Expr.balanced (show e.Regular maxDepth from hs)
    refine hostLines_append hbalanced.code ?_
    rw [Statement.kinds_expression, hbalanced.depth]
    exact h
  | magic => exact ⟨fun _ _ => ⟨rfl, rfl⟩, h _⟩

theorem hostLines_lines {ss : List Statement} {ks : List Token.Kind} (hss : ∀ s ∈ ss, s.Regular)
    (h : ∀ b, HostLines b 0 ks) (lineStart : Bool) :
    HostLines lineStart 0 ((ss.map Statement.kinds).flatMap ([.newline] ++ ·) ++ ks) := by
  induction ss generalizing lineStart with
  | nil => exact h lineStart
  | cons s ss ih =>
    rw [List.map_cons, List.flatMap_cons, List.append_assoc, List.append_assoc]
    refine ⟨nofun, hostLines_statement (hss s (by simp)) ?_⟩
    exact ih fun t ht => hss t (by simp [ht])

theorem hostLines_listKinds {ss : List Statement} {ks : List Token.Kind}
    (hss : ∀ s ∈ ss, s.Regular) (h : ∀ b, HostLines b 0 ks) :
    HostLines true 0 (Statement.listKinds ss ++ ks) := by
  cases ss with
  | nil => exact h true
  | cons s ss =>
    rw [Statement.listKinds, List.map_cons, intercalate_cons_eq_flatMap, List.append_assoc]
    exact hostLines_statement (hss s (by simp)) (hostLines_lines (fun t ht => hss t (by simp [ht])) h)

/-! ## Programs -/

/-- A statement when it is read again. -/
def Statement.readBack : Statement → Statement
  | expression e => expression e
  | magic span payload => magic span (String.ofList (dropReturn payload.toList))

/-- A program when it is read again. -/
def Program.readBack (p : Program) : Program where
  shebang := p.shebang.map fun text => String.ofList (dropReturn text.toList)
  statements := p.statements.map Statement.readBack
  span := p.span

/-- Whether the program has tokens that a text can have. -/
structure Program.Writable (p : Program) : Prop where
  regular : ∀ s ∈ p.statements, s.Regular
  valid : ∀ s ∈ p.statements, ∀ k ∈ s.kinds, k.Valid
  shebang : ∀ text ∈ p.shebang, '\n' ∉ text.toList

/-- Code is read back as it is written. -/
theorem Token.Kind.map_readBack {ks : List Token.Kind} (h : ∀ k ∈ ks, k.isCode = true) :
    ks.map readBack = ks := by
  have hself : ∀ k ∈ ks, k.readBack = id k := by
    intro k hk
    cases k <;> first | rfl | cases h _ hk
  rw [List.map_congr_left hself, List.map_id]

theorem Statement.kinds_readBack {s : Statement} (hs : s.Regular) :
    s.readBack.kinds = s.kinds.map Token.Kind.readBack := by
  cases s with
  | expression e =>
    have hcode := (Expr.balanced (show e.Regular maxDepth from hs)).code
    rw [Statement.readBack, Statement.kinds_expression, Token.Kind.map_readBack hcode]
  | magic => rfl

theorem Program.kinds_readBack {p : Program} (hp : ∀ s ∈ p.statements, s.Regular) :
    p.readBack.kinds = p.kinds.map Token.Kind.readBack := by
  have hstatements : (p.statements.map Statement.readBack).map Statement.kinds =
      (p.statements.map Statement.kinds).map (·.map Token.Kind.readBack) := by
    rw [List.map_map, List.map_map]
    exact List.map_congr_left fun s hs => Statement.kinds_readBack (hp s hs)
  rw [Program.kinds_eq, Program.kinds_eq, map_intercalate, List.map_append, ← hstatements]
  cases h : p.shebang <;> simp [readBack, h, Token.Kind.readBack]

/-- The lines of a program, whatever the shebang is. -/
theorem Program.pieces_eq (p : Program) :
    p.pieces = [Piece.token .newline].intercalate
      ((p.shebang.map fun text => [Piece.token (.shebang text)]).toList ++
        p.statements.map Statement.pieces) := rfl

/-- What may stand behind the last line of a text: nothing, or a line feed. -/
def Piece.LastLine (tail : List Piece) : Prop := tail = [] ∨ tail = [token .newline]

theorem Piece.LastLine.kinds {tail : List Piece} (h : LastLine tail) :
    kinds tail = [] ∨ kinds tail = [.newline] := by
  rcases h with rfl | rfl
  · exact .inl rfl
  · exact .inr rfl

/-- Of the lines of a program no two run together. -/
theorem Program.chain {p : Program} {tail : List Piece} (hp : ∀ s ∈ p.statements, s.Regular)
    (l : Layout) (htail : Piece.LastLine tail) : (l.solid (p.pieces ++ tail)).IsChain Beside := by
  rw [pieces_eq]
  by_cases hnil : (p.shebang.map fun text => [Piece.token (.shebang text)]).toList ++
      p.statements.map Statement.pieces = []
  · rw [hnil]
    rcases htail with rfl | rfl
    · exact .nil
    · rw [List.intercalate_nil, List.nil_append, Layout.solid_token]
      exact List.isChain_singleton _
  · have hrun : l.Run BeginsLine EndsLine ([Piece.token .newline].intercalate
        ((p.shebang.map fun text => [Piece.token (.shebang text)]).toList ++
          p.statements.map Statement.pieces)) := by
      refine Layout.Run.intercalate hnil ?_ (Layout.Run.token .newline) ?_ ?_
      · intro ps hps
        rcases List.mem_append.1 hps with hps | hps
        · obtain ⟨text, -, rfl⟩ := Option.map_eq_some_iff.1 (Option.mem_toList.1 hps)
          refine (Layout.Run.token _).mono ?_ ?_
          · rintro q rfl
            refine Piece.beside_of_parts (fun _ _ => ?_) nofun
            exact Token.Kind.endsBefore_newline (isSpace_of_mem_marks (by decide)) (by decide)
          · rintro q rfl
            exact Piece.beside_of_parts (fun _ _ => trivial) nofun
        · obtain ⟨s, hs, rfl⟩ := List.mem_map.1 hps
          exact Statement.run (hp s hs)
      · rintro a b ha rfl
        exact ha
      · rintro a b rfl hb
        exact hb
    rcases htail with rfl | rfl
    · rw [List.append_nil]
      exact hrun.chain
    · refine (hrun.append (Layout.Run.token .newline) ?_).chain
      rintro a b ha rfl
      exact ha

theorem Layout.rest_write (l : Layout) (ps : List Piece) :
    (Lexer.ofString (l.write ps)).rest = (l.solid ps).flatMap compact.characters := by
  rw [flatMap_solid]
  exact String.toList_ofList

theorem dropReturn_shebang (text : List Char) :
    (dropReturn ('#' :: '!' :: text)).drop 2 = dropReturn text := by
  cases text with
  | nil => rfl
  | cons c cs =>
    simp only [dropReturn, List.getLast?_cons_cons]
    split <;> rfl

/-- A shebang line is read back as the first token, and the pieces on the lines behind it are read
back after it. -/
theorem shows_of_shebang {source text : String} {ps : List Piece}
    (hrest : (Lexer.ofString source).rest =
      '#' :: '!' :: (text.toList ++ ps.flatMap Layout.compact.characters))
    (htext : '\n' ∉ text.toList)
    (hbehind : ∀ c ∈ (ps.flatMap Layout.compact.characters).head?, c = '\n')
    (hchain : ps.IsChain Beside) (hgap : .gap ∉ ps)
    (hvalid : ∀ k ∈ Piece.kinds ps, k.Valid ∧ ∀ text, k ≠ .shebang text)
    (hlines : HostLines true 0 (Piece.kinds ps)) :
    (Lexer.ofString source).stream.Shows ((.shebang text :: Piece.kinds ps).map readBack) 0 := by
  have hline := Lexer.shebang?_of_rest rfl hrest htext hbehind
  have hfirst : ((Lexer.ofString source).nextShebang ('#' :: '!' :: text.toList)).1.kind =
      readBack (.shebang text) := by
    simp only [Lexer.nextShebang, dropReturn_shebang]
    rfl
  have hkind : ((Lexer.ofString source).nextShebang ('#' :: '!' :: text.toList)).1.kind ≠
      .endOfInput := by
    simp [Lexer.nextShebang]
  have hskip : ((Lexer.ofString source).skip ('#' :: '!' :: text.toList)).rest =
      ps.flatMap Layout.compact.characters := by
    rw [Lexer.skip, hrest]
    exact List.drop_left
  have hspaces : ∀ c ∈ ([] : List Char), c = ' ' := by simp
  obtain ⟨hnext, -⟩ := Lexer.next_of_shebang hline
  rw [Lexer.stream_of_next hnext hkind, List.map_cons, ← hfirst]
  refine .token hkind (fun hk => by cases hk) ?_
  refine shows_of_pieces hchain hgap hvalid hspaces hskip (Lexer.shebang?_skip hline) hlines ?_
  exact fun _ _ => ⟨rfl, rfl⟩

namespace Program.Writable
variable {p : Program} {tail : List Piece}

/-- Statements and the line feeds between them have tokens that a text can have, and no shebang
line is among them. -/
theorem kinds_valid (h : p.Writable) {k : Token.Kind}
    (hk : k = .newline ∨ ∃ s ∈ p.statements, k ∈ s.kinds) :
    k.Valid ∧ ∀ text, k ≠ .shebang text := by
  rcases hk with rfl | ⟨s, hs, hk⟩
  · exact ⟨trivial, nofun⟩
  · refine ⟨h.valid s hs k hk, ?_⟩
    rintro text rfl
    cases s with
    | expression e =>
      have he : e.Regular maxDepth := h.regular _ hs
      cases (Expr.balanced he).code _ hk
    | magic => simp at hk

/-- Without a shebang line, all of the text are statements. -/
theorem shows_statements (h : p.Writable) (hshebang : p.shebang = none) (l : Layout)
    (htail : Piece.LastLine tail) :
    (Lexer.ofString (l.write (p.pieces ++ tail))).stream.Shows
      ((p.kinds ++ Piece.kinds tail).map Token.Kind.readBack) 0 := by
  have hkinds : p.kinds = Statement.listKinds p.statements := by
    rw [Program.kinds_eq, hshebang]
    rfl
  have hsolid : Piece.kinds (l.solid (p.pieces ++ tail)) = p.kinds ++ Piece.kinds tail := by
    rw [Layout.kinds_solid, Piece.kinds_append]
    rfl
  have hvalid : ∀ k ∈ Piece.kinds (l.solid (p.pieces ++ tail)),
      k.Valid ∧ ∀ text, k ≠ .shebang text := by
    intro k hk
    rw [hsolid, hkinds] at hk
    refine h.kinds_valid ?_
    rcases List.mem_append.1 hk with hk | hk
    · rcases mem_intercalate hk with hk | ⟨ks, hks, hk⟩
      · exact .inl (List.mem_singleton.1 hk)
      · obtain ⟨s, hs, rfl⟩ := List.mem_map.1 hks
        exact .inr ⟨s, hs, hk⟩
    · rcases htail.kinds with htail | htail <;> simp_all
  have hlines : HostLines true 0 (Piece.kinds (l.solid (p.pieces ++ tail))) := by
    rw [hsolid, hkinds]
    refine hostLines_listKinds h.regular fun b => ?_
    rcases htail with rfl | rfl
    · trivial
    · exact ⟨nofun, trivial⟩
  have hchain := Program.chain h.regular l htail
  have hrest := l.rest_write (p.pieces ++ tail)
  have hnone := shebang?_of_pieces hchain Layout.gap_notMem_solid hvalid hrest
  have hspaces : ∀ c ∈ ([] : List Char), c = ' ' := by simp
  rw [← hsolid]
  refine shows_of_pieces hchain Layout.gap_notMem_solid hvalid hspaces hrest hnone hlines ?_
  exact fun _ _ => ⟨rfl, rfl⟩

/-- A shebang line is first, and the statements stand on the lines behind it. -/
theorem shows_shebang (h : p.Writable) {text : String} (hshebang : p.shebang = some text)
    (l : Layout) (htail : Piece.LastLine tail) :
    (Lexer.ofString (l.write (p.pieces ++ tail))).stream.Shows
      ((p.kinds ++ Piece.kinds tail).map Token.Kind.readBack) 0 := by
  obtain ⟨lines, hlines⟩ : ∃ lines, lines =
      (p.statements.map Statement.pieces).flatMap ([.token .newline] ++ ·) ++ tail := ⟨_, rfl⟩
  have hpieces : p.pieces ++ tail = .token (.shebang text) :: lines := by
    rw [Program.pieces_eq, hshebang, hlines, ← List.cons_append]
    exact congrArg (· ++ tail) (intercalate_cons_eq_flatMap _ _ _)
  have hsolid : Piece.kinds (l.solid lines) =
      (p.statements.map Statement.kinds).flatMap ([.newline] ++ ·) ++ Piece.kinds tail := by
    rw [Layout.kinds_solid, hlines, Piece.kinds_append]
    simp only [Piece.kinds, List.filterMap_flatMap, List.flatMap_map]
    rfl
  have hkinds : p.kinds ++ Piece.kinds tail = .shebang text :: Piece.kinds (l.solid lines) := by
    rw [Layout.kinds_solid, Program.kinds, ← Piece.kinds_append, hpieces]
    rfl
  have hchain := Program.chain h.regular l htail
  have hrest := l.rest_write (p.pieces ++ tail)
  rw [hpieces, Layout.solid_token] at hchain hrest
  -- The line ends where the text of the shebang does.
  have hbehind : ∀ c ∈ ((l.solid lines).flatMap Layout.compact.characters).head?, c = '\n' := by
    rw [hlines]
    cases p.statements with
    | nil =>
      rcases htail with rfl | rfl
      · simp
      · intro c hc
        rw [List.map_nil, List.flatMap_nil, List.nil_append, Layout.solid_token] at hc
        cases hc
        rfl
    | cons s ss =>
      intro c hc
      rw [List.map_cons, List.flatMap_cons, List.append_assoc, List.append_assoc,
        List.singleton_append, Layout.solid_token] at hc
      cases hc
      rfl
  have hvalid : ∀ k ∈ Piece.kinds (l.solid lines), k.Valid ∧ ∀ text, k ≠ .shebang text := by
    intro k hk
    rw [hsolid] at hk
    refine h.kinds_valid ?_
    rcases List.mem_append.1 hk with hk | hk
    · obtain ⟨ks, hks, hk⟩ := List.mem_flatMap.1 hk
      obtain ⟨s, hs, rfl⟩ := List.mem_map.1 hks
      rcases List.mem_append.1 hk with hk | hk
      · exact .inl (List.mem_singleton.1 hk)
      · exact .inr ⟨s, hs, hk⟩
    · rcases htail.kinds with htail | htail <;> simp_all
  have hstatements : HostLines true 0 (Piece.kinds (l.solid lines)) := by
    rw [hsolid]
    refine hostLines_lines h.regular (fun b => ?_) true
    rcases htail with rfl | rfl
    · trivial
    · exact ⟨fun _ hk => (by cases hk), trivial⟩
  have htext : '\n' ∉ text.toList := h.shebang text hshebang
  rw [hpieces, hkinds]
  refine shows_of_shebang ?_ htext hbehind hchain.tail Layout.gap_notMem_solid hvalid hstatements
  rw [hrest]
  rfl

/-- Whatever the layout is, the tokens of the text of a program are its own, but for what is not
read back. -/
theorem shows (h : p.Writable) (l : Layout) (htail : Piece.LastLine tail) :
    (Lexer.ofString (l.write (p.pieces ++ tail))).stream.Shows
      (p.readBack.kinds ++ Piece.kinds tail) 0 := by
  have hreadBack : p.readBack.kinds ++ Piece.kinds tail =
      (p.kinds ++ Piece.kinds tail).map Token.Kind.readBack := by
    rw [List.map_append, Program.kinds_readBack h.regular]
    rcases htail with rfl | rfl <;> rfl
  rw [hreadBack]
  cases hshebang : p.shebang with
  | none => exact h.shows_statements hshebang l htail
  | some text => exact h.shows_shebang hshebang l htail

end Program.Writable

/-- A cursor in front of a text views what the stream of the text shows. -/
theorem Cursor.views_of_shows {source : String} {ks : List Token.Kind}
    (h : (Lexer.ofString source).stream.Shows ks 0) :
    ∃ c, Cursor.ofString source = .ok c ∧ c.Views ks := by
  unfold Cursor.ofString
  generalize (Lexer.ofString source).stream = s at h
  cases h with
  | ended place => exact ⟨_, rfl, rfl⟩
  | token hne htouch hrest => exact ⟨_, rfl, .token hne htouch hrest⟩

end WqSource
