import WqSource.Proofs.Token.Spelled
import WqSource.Proofs.Token.Tiling

/-!
# Tokens in other places

A text can be written again from its tokens, with blanks of any width between every two of
them. Gone are then comments, and everything that stood next to a token before: each lexeme
has blanks behind it, or the end of the text. It is read again as what it was, because blanks
make no lexeme longer.

Line feeds are the one exception. They go on behind blanks, to line feeds further on. That
there are none is known only from the tokens behind them, so the text is read from its end to
its front.

## Main definitions

* `Blanks`: spaces and tabs, and at least one of them.
* `respaced`: lexemes with blanks between them.

## Main statements

* `tokenize_respaced`: the tokens of the new text are those of the old one.
-/

namespace WqSource

variable {cs front lexeme rest trailing : List Char} {k : Token.Kind} {t : Token}
  {ts : List Token} {blanks : Nat → Blanks}

/-- Spaces and tabs, and at least one of them. -/
structure Blanks where
  chars : List Char
  ne_nil : chars ≠ []
  blank : ∀ c ∈ chars, c = ' ' ∨ c = '\t'

/-- The lexemes of tokens in order, with the given blanks between every two. -/
def respaced (blanks : Nat → Blanks) : List Token → List Char
  | [] => []
  | [t] => t.lexeme.toList
  | t :: t' :: ts =>
    t.lexeme.toList ++ ((blanks 0).chars ++ respaced (fun i => blanks (i + 1)) (t' :: ts))

/-! ## Blanks behind a lexeme -/

namespace Token.Kind

/-- Blanks make no lexeme longer but line feeds. -/
theorem endsBefore_of_blank (hblank : ∀ c ∈ rest.head?, c = ' ' ∨ c = '\t')
    (hnewline : k ≠ .newline) (hmagic : ∀ payload, k ≠ .magic payload) : k.EndsBefore rest := by
  cases rest with
  | nil => exact endsBefore_nil
  | cons c tail =>
    have hc : Name.isContinue c = false ∧ c.isDigit = false ∧ c ≠ '.' ∧ c ≠ '/' ∧ c ≠ '=' := by
      rcases hblank c rfl with rfl | rfl <;> decide
    unfold EndsBefore
    split <;> simp_all

/-- Nothing but line feeds is read where there is one. -/
theorem Lexeme.eq_newline (h : k.Lexeme ('\n' :: cs)) : k = .newline := by
  have hscan : scan true ('\n' :: cs ++ []) = .read ('\n' :: cs) (.ok k) :=
    h.scan_eq endsBefore_nil fun _ _ => rfl
  rw [List.append_nil] at hscan
  cases (Scan.read.inj hscan).2
  rfl

/-- Nothing but a number sign is read where there is one. -/
theorem Lexeme.eq_nil_of_hash (h : k.Lexeme ('#' :: cs)) : cs = [] := by
  have hscan : scan true ('#' :: cs ++ []) = .read ('#' :: cs) (.ok k) :=
    h.scan_eq endsBefore_nil fun _ _ => rfl
  rw [List.append_nil] at hscan
  exact ((List.cons.inj (Scan.read.inj hscan).1).2).symm

end Token.Kind

/-- Line feeds end where the next token is none. -/
theorem Lexer.Tiled.newline_endsBefore {l : Lexer} (h : l.Tiled ts)
    (hhead : ∀ t ∈ ts.head?, t.kind ≠ .newline) : Token.Kind.newline.EndsBefore l.rest := by
  intro tail htail
  cases h with
  | ending hgap =>
    have htrivia := hgap.trivia_eq rfl
    rw [List.append_nil] at htrivia
    rw [htrivia, List.drop_length] at htail
    cases htail
  | token hfinds =>
    have htrivia := hfinds.gap.trivia_eq (hfinds.lexeme.trivia_eq hfinds.ends)
    rw [hfinds.rest_eq, htrivia, List.drop_left] at htail
    obtain ⟨c, lexeme, rfl⟩ := List.exists_cons_of_ne_nil hfinds.lexeme.ne_nil
    obtain ⟨rfl, -⟩ := List.cons.inj htail
    exact hhead _ rfl hfinds.lexeme.eq_newline

/-! ## Reading again -/

theorem isGap_of_blank (h : ∀ c ∈ cs, c = ' ' ∨ c = '\t') : IsGap rest cs := by
  refine .blanks fun c hc => ?_
  rcases h c hc with rfl | rfl <;> decide

/-- What is behind the first lexeme: blanks and the next one, or the end. -/
theorem respaced_cons (blanks : Nat → Blanks) (t : Token) (ts : List Token) :
    ∃ front, (∀ c ∈ front, c = ' ' ∨ c = '\t') ∧ (ts ≠ [] → front ≠ []) ∧
      respaced blanks (t :: ts) =
        t.lexeme.toList ++ (front ++ respaced (fun i => blanks (i + 1)) ts) := by
  cases ts with
  | nil => exact ⟨[], nofun, nofun, by simp [respaced]⟩
  | cons t' ts => exact ⟨(blanks 0).chars, (blanks 0).blank, fun _ => (blanks 0).ne_nil, rfl⟩

theorem respaced_ending (blanks : Nat → Blanks) (ts : List Token) (place : Position) :
    ∃ trailing, (∀ c ∈ trailing, c = ' ' ∨ c = '\t') ∧
      respaced blanks (ts ++ [.ending place]) = respaced blanks ts ++ trailing := by
  induction ts generalizing blanks with
  | nil => exact ⟨[], nofun, rfl⟩
  | cons t ts ih =>
    cases ts with
    | nil => exact ⟨(blanks 0).chars, (blanks 0).blank, by simp [respaced, Token.ending]⟩
    | cons t' ts =>
      obtain ⟨trailing, htrailing, htext⟩ := ih fun i => blanks (i + 1)
      refine ⟨trailing, htrailing, ?_⟩
      rw [List.cons_append, List.cons_append, respaced, ← List.cons_append, htext, respaced]
      simp only [List.append_assoc]

/-- Behind a lexeme there are blanks, unless the text ends. -/
theorem head_of_respaced (blanks : Nat → Blanks)
    (hfront : ∀ c ∈ front, c = ' ' ∨ c = '\t') (hne : ts ≠ [] → front ≠ [])
    (htrailing : ∀ c ∈ trailing, c = ' ' ∨ c = '\t') :
    ∀ c ∈ (front ++ (respaced blanks ts ++ trailing)).head?, c = ' ' ∨ c = '\t' := by
  intro c hc
  cases front with
  | cons d front =>
    obtain rfl := Option.some.inj hc
    exact hfront d (by simp)
  | nil =>
    obtain rfl : ts = [] := by
      by_contra h
      exact hne h rfl
    exact htrailing c (List.mem_of_mem_head? hc)

namespace Lexer
variable {l m : Lexer} {before : List Token} {place : Position}

/-- The first token of several has its lexeme in front of what the others are read from. -/
theorem Tiled.of_cons (h : l.Tiled (t :: before ++ [Token.ending place])) :
    ∃ gap rest, l.Finds gap t.lexeme.toList rest t.kind ∧
      (l.moved gap t.lexeme.toList rest t.kind).Tiled (before ++ [Token.ending place]) := by
  generalize hall : t :: before ++ [Token.ending place] = ts at h
  cases h with
  | ending => simp at hall
  | @token _ gap lexeme rest k ts hfinds htiled =>
    obtain ⟨rfl, rfl⟩ := List.cons.inj hall
    have hlexeme : (l.tokenBehind gap lexeme k).lexeme.toList = lexeme := by simp [tokenBehind]
    rw [hlexeme]
    exact ⟨gap, rest, hfinds, htiled⟩

/-- Behind blanks, lexemes with blanks between them are read as the tokens they are from. -/
theorem Tiled.respaced (h : l.Tiled (before ++ [Token.ending place]))
    (hmagic : ∀ t ∈ before, ∀ payload, t.kind ≠ .magic payload)
    (hfront : ∀ c ∈ front, c = ' ' ∨ c = '\t') (htrailing : ∀ c ∈ trailing, c = ' ' ∨ c = '\t')
    (hrest : m.rest = front ++ (respaced blanks before ++ trailing)) :
    ∃ us, m.Tiled us ∧ us.map Token.kind = (before ++ [Token.ending place]).map Token.kind := by
  induction before generalizing l m front blanks with
  | nil =>
    have hgap : IsGap [] m.rest := by
      rw [hrest]
      exact isGap_of_blank (List.forall_mem_append.2 ⟨hfront, htrailing⟩)
    exact ⟨_, .ending hgap, rfl⟩
  | cons t before ih =>
    obtain ⟨gap, rest, hfinds, htiled⟩ := h.of_cons
    obtain ⟨hmagic, hmagics⟩ := List.forall_mem_cons.1 hmagic
    obtain ⟨behind, hbehind, hne, htext⟩ := respaced_cons blanks t before
    rw [htext, List.append_assoc, List.append_assoc] at hrest
    have hblank := head_of_respaced (fun i => blanks (i + 1)) hbehind hne htrailing
    generalize htail : behind ++ (WqSource.respaced _ before ++ trailing) = tail at hrest hblank
    obtain ⟨us, hus, hkinds⟩ := ih (m := m.moved front t.lexeme.toList tail t.kind)
      htiled hmagics hbehind htail.symm
    have hends : t.kind.EndsBefore tail := by
      by_cases hk : t.kind = .newline
      · -- There were no line feeds behind these, so there are none now.
        rw [hk] at hfinds hus ⊢
        refine hus.newline_endsBefore fun u hu => ?_
        have hhead := congrArg List.head? hkinds
        rw [List.head?_map, List.head?_map, Option.mem_def.1 hu] at hhead
        obtain ⟨t', ht', hkind⟩ := Option.map_eq_some_iff.1 hhead.symm
        rw [← hkind]
        exact htiled.head_ne_newline hfinds.ends t' ht'
      · exact Token.Kind.endsBefore_of_blank hblank hk hmagic
    have hread : m.Finds front t.lexeme.toList tail t.kind :=
      ⟨hrest, isGap_of_blank hfront, hfinds.lexeme, hends, fun payload hk =>
        absurd hk (hmagic payload)⟩
    exact ⟨_, .token hread hus, congrArg (t.kind :: ·) hkinds⟩

/-- A number sign has blanks behind it, so no shebang line is made. -/
theorem Tiled.shebang?_respaced (h : l.Tiled (before ++ [Token.ending place]))
    (htrailing : ∀ c ∈ trailing, c = ' ' ∨ c = '\t')
    (hrest : m.rest = WqSource.respaced blanks before ++ trailing) : m.shebang? = none := by
  refine shebang?_eq_none_of_rest fun cs hcs => ?_
  rw [hrest] at hcs
  cases before with
  | nil => exact absurd (htrailing '#' (by simp_all [WqSource.respaced])) (by decide)
  | cons t before =>
    obtain ⟨gap, rest, hfinds, -⟩ := h.of_cons
    obtain ⟨behind, hbehind, hne, htext⟩ := respaced_cons blanks t before
    have hblank := head_of_respaced (fun i => blanks (i + 1)) hbehind hne htrailing
    rw [htext, List.append_assoc, List.append_assoc] at hcs
    have hlexeme := hfinds.lexeme
    obtain ⟨c, lexeme, hcons⟩ := List.exists_cons_of_ne_nil hlexeme.ne_nil
    rw [hcons] at hlexeme hcs
    obtain ⟨rfl, hbang⟩ := List.cons.inj hcs
    rw [hlexeme.eq_nil_of_hash] at hbang
    exact absurd (hblank '!' (congrArg List.head? hbang)) (by decide)

end Lexer

/-- The tokens of a text without lines for the host are read again from their lexemes, whatever
blanks stand between every two of them, with blanks behind the last one or without. -/
theorem tokenize_respaced {source : String} (h : tokenize source = .ok ts)
    (hshebang : ∀ t ∈ ts, ∀ text, t.kind ≠ .shebang text)
    (hmagic : ∀ t ∈ ts, ∀ payload, t.kind ≠ .magic payload) (blanks : Nat → Blanks) :
    (tokenize (String.ofList (respaced blanks ts))).map (List.map Token.kind) =
        .ok (ts.map Token.kind) ∧
      (tokenize (String.ofList (respaced blanks ts.dropLast))).map (List.map Token.kind) =
        .ok (ts.map Token.kind) := by
  have htiled : (Lexer.ofString source).Tiled ts := by
    rcases tiled_of_tokenize h with htiled | ⟨line, tail, -, rfl, -⟩
    · exact htiled
    · exact absurd rfl (hshebang _ List.mem_cons_self _)
  obtain ⟨before, place, rfl, -⟩ := htiled.ending_last
  have hmagic : ∀ t ∈ before, ∀ payload, t.kind ≠ .magic payload := fun t ht =>
    hmagic t (by simp [ht])
  have reads {trailing : List Char} (htrailing : ∀ c ∈ trailing, c = ' ' ∨ c = '\t') :
      (tokenize (String.ofList (respaced blanks before ++ trailing))).map (List.map Token.kind) =
        .ok ((before ++ [Token.ending place]).map Token.kind) := by
    have hrest := String.toList_ofList (l := respaced blanks before ++ trailing)
    generalize String.ofList (respaced blanks before ++ trailing) = text at hrest ⊢
    change (Lexer.ofString text).rest = _ at hrest
    have hempty : ∀ c ∈ ([] : List Char), c = ' ' ∨ c = '\t' := nofun
    obtain ⟨us, hus, hkinds⟩ := htiled.respaced hmagic hempty htrailing hrest
    rw [tokenize, hus.tokens_eq (htiled.shebang?_respaced htrailing hrest), ← hkinds]
    rfl
  obtain ⟨trailing, htrailing, htext⟩ := respaced_ending blanks before place
  constructor
  · rw [htext]
    exact reads htrailing
  · rw [List.dropLast_concat, ← List.append_nil (respaced blanks before)]
    exact reads nofun

/-- A second point behind a number, a comment between line feeds, and a number sign that would
begin a shebang line at the start of a text. -/
theorem tokenize_respaced_points :
    ∃ ts, tokenize "1.2.3//c\n\n #!=x" = .ok ts ∧
      (tokenize (String.ofList (respaced (fun _ => ⟨['\t', ' '], by simp, by simp⟩) ts))).map
        (List.map Token.kind) = .ok (ts.map Token.kind) := by
  have hkinds : (tokenize "1.2.3//c\n\n #!=x").toOption.map (List.map (·.kind.name)) =
      some ["float", "punct", "integer", "newline", "punct", "punct", "identifier", "eof"] := by
    decide +kernel
  cases h : tokenize "1.2.3//c\n\n #!=x" with
  | error e =>
    rw [h] at hkinds
    cases hkinds
  | ok ts =>
    rw [h] at hkinds
    have hnames := Option.some.inj hkinds
    have plain (t : Token) (ht : t ∈ ts) : t.kind.name ≠ "shebang" ∧ t.kind.name ≠ "magic" := by
      have hmem : t.kind.name ∈ ts.map (·.kind.name) := List.mem_map_of_mem ht
      rw [hnames] at hmem
      generalize t.kind.name = name at hmem
      revert name
      decide
    refine ⟨ts, rfl,
      (tokenize_respaced h (fun t ht text hk => ?_) (fun t ht text hk => ?_) _).1⟩
    · exact (plain t ht).1 (by rw [hk]; rfl)
    · exact (plain t ht).2 (by rw [hk]; rfl)

end WqSource
