import WqSource.Proofs.Alike.Program

/-!
# Layout does not matter

What stands between the tokens of a text, and where the tokens stand, has no influence on how
the text is parsed, except that an opening bracket may touch the token in front of it. Two texts
with the same tokens and the same brackets that touch have the same program apart from places,
and the same is wrong with both.

## Main definitions

* `touchingBrackets`: where brackets touch.
* `Parsed.Alike`: parses that differ in places only.

## Main statements

* `parse_alike`.
-/

namespace WqSource
open Grammar WqSource.Parser

/-- For each token but the first, whether it is an opening bracket that begins where the token in
front of it ends. -/
def touchingBrackets (ts : List Token) : List Bool :=
  List.zipWith (fun t u => u.kind == .punct .openBracket &&
    t.span.stop.offset == u.span.start.offset) ts ts.tail

@[simp] theorem touchingBrackets_cons (t u : Token) (ts : List Token) :
    touchingBrackets (t :: u :: ts) =
      (u.kind == .punct .openBracket && t.span.stop.offset == u.span.start.offset) ::
        touchingBrackets (u :: ts) := rfl

/-- The tokens of a stream that begins with a token. -/
theorem TokenStream.tokens_token {t : Token} {rest : TokenStream} {ts : List Token}
    (h : (token t rest).tokens = .ok ts) : ∃ us, ts = t :: us ∧ rest.tokens = .ok us := by
  rw [tokens] at h
  cases hrest : rest.tokens with
  | error e =>
    rw [hrest] at h
    cases h
  | ok us =>
    rw [hrest] at h
    cases h
    exact ⟨us, rfl, rfl⟩

theorem TokenStream.exists_cons_of_tokens {s : TokenStream} {ts : List Token}
    (h : s.tokens = .ok ts) : ∃ t us, ts = t :: us := by
  cases s with
  | stuck | fault => cases h
  | ended place =>
    cases h
    exact ⟨_, _, rfl⟩
  | token t rest =>
    obtain ⟨us, rfl, -⟩ := tokens_token h
    exact ⟨t, us, rfl⟩

/-- Streams with the same tokens, behind tokens that the same brackets touch, are alike. -/
theorem TokenStream.alike_of_tokens {s s' : TokenStream} {ts ts' : List Token} (depth : Nat)
    (u u' : Token) (hs : s.EndsLast) (hs' : s'.EndsLast) (h : s.tokens = .ok ts)
    (h' : s'.tokens = .ok ts') (hkinds : ts.map Token.kind = ts'.map Token.kind)
    (htouch : touchingBrackets (u :: ts) = touchingBrackets (u' :: ts')) :
    Alike none depth u.span.stop.offset u'.span.stop.offset s s' := by
  induction s generalizing s' ts ts' u u' depth with
  | stuck | fault => cases h
  | ended place =>
    cases h
    cases s' with
    | stuck | fault => cases h'
    | ended place' => exact .ended place place' rfl
    | token t' rest' =>
      obtain ⟨us', rfl, -⟩ := tokens_token h'
      exact absurd (List.cons.inj hkinds).1.symm hs'.1
  | token t rest ih =>
    obtain ⟨us, rfl, hrest⟩ := tokens_token h
    cases s' with
    | stuck | fault => cases h'
    | ended place' =>
      cases h'
      exact absurd (List.cons.inj hkinds).1 hs.1
    | token t' rest' =>
      obtain ⟨us', rfl, hrest'⟩ := tokens_token h'
      obtain ⟨hkind, hkinds⟩ := List.cons.inj hkinds
      rw [touchingBrackets_cons, touchingBrackets_cons] at htouch
      obtain ⟨hfirst, htouch⟩ := List.cons.inj htouch
      refine .token hkind hs.1 (fun hopen => ?_) (ih _ t t' hs.2 hs'.2 hrest hrest' hkinds htouch)
      rw [← hkind, hopen, beq_self_eq_true, Bool.true_and, Bool.true_and] at hfirst
      have hiff := Bool.eq_iff_iff.1 hfirst
      rw [beq_iff_eq, beq_iff_eq] at hiff
      exact ⟨fun he => (hiff.1 he.symm).symm, fun he => (hiff.2 he.symm).symm⟩

/-- What both parses have in common when they begin. -/
def Comparison.fresh : Comparison := ⟨none, [], []⟩

/-- Cursors in front of two texts with the same tokens match. -/
theorem Cursor.matches_ofString {source source' : String} {ts ts' : List Token}
    (h : tokenize source = .ok ts) (h' : tokenize source' = .ok ts')
    (hkinds : ts.map Token.kind = ts'.map Token.kind)
    (htouch : touchingBrackets ts = touchingBrackets ts') :
    ∃ c c', Cursor.ofString source = .ok c ∧ Cursor.ofString source' = .ok c' ∧
      c.Matches .fresh c' := by
  have hs := Lexer.stream_endsLast (Lexer.ofString source)
  have hs' := Lexer.stream_endsLast (Lexer.ofString source')
  unfold Cursor.ofString
  rw [tokenize] at h h'
  generalize (Lexer.ofString source).stream = s at h hs ⊢
  generalize (Lexer.ofString source').stream = s' at h' hs' ⊢
  obtain ⟨t, us, rfl⟩ := TokenStream.exists_cons_of_tokens h
  obtain ⟨t', us', rfl⟩ := TokenStream.exists_cons_of_tokens h'
  have hkind : t.kind = t'.kind := (List.cons.inj hkinds).1
  -- Nothing stands in front of the first tokens; here something does that both of them touch.
  have halike := TokenStream.alike_of_tokens 0 ⟨.newline, "", ⟨.start, t.span.start⟩⟩
    ⟨.newline, "", ⟨.start, t'.span.start⟩⟩ hs hs' h h' hkinds (by simp [htouch, hkind])
  rcases halike.next with ⟨v, v', rest, rest', hn, hn', hbehind, -⟩ | ⟨e, -, rest, -, hn, -⟩
  · rcases hbehind with ⟨hkind, hend, hrest⟩ | ⟨-, -, -, -, hseam⟩
    · rw [hn, hn']
      exact ⟨_, _, rfl, rfl, .inl ⟨hkind, hend, hrest⟩, rfl, [], [], rfl, rfl, .nil⟩
    · cases hseam
  · rw [TokenStream.tokens_eq, TokenStream.next_error hn] at h
    cases h

/-! ## What a reader sees -/

/-- What an error of the grammar says is expected, and what is there instead. -/
def Problem.texts? : Problem → Option (String × String)
  | failure (.grammar g) => some (g.expected.text, g.foundText)
  | _ => none

/-- Two problems differ in their places only, as far as a reader is told of grammar. -/
structure Problem.SameTexts (p p' : Problem) : Prop where
  severity : p.diagnostic.severity = p'.diagnostic.severity
  texts : p.texts? = p'.texts?

/-- Two parses differ in places only. -/
structure Parsed.Alike (p p' : Parsed) : Prop where
  program : p.program.erase = p'.program.erase
  shape : p.program.shape = p'.program.shape
  problems : List.Forall₂ Problem.SameTexts p.problems p'.problems

theorem Problem.Alike.sameTexts {p p' : Problem} (h : p.Alike .fresh p') : p.SameTexts p' := by
  cases h with
  | legacySpelling => exact ⟨rfl, rfl⟩
  | failure he =>
    cases he with
    | lexical => exact ⟨rfl, rfl⟩
    | @grammar g g' hexpected hfound =>
      have hfound : g.found = g'.found := hfound.resolve_right fun h => h.1 rfl
      refine ⟨rfl, ?_⟩
      simp only [Problem.texts?, GrammarError.foundText, hexpected, hfound]

namespace Grammar
variable {m : Comparison} {c c' : Cursor}

/-- What is wrong with two programs is alike if what has been noted and what has stopped them
is. -/
theorem problems_alike {e e' : Option ParseError} (h : c.Matches m c')
    (he : Option.Rel (ParseError.Alike m) e e') :
    ∃ ps ps', c.problems ++ e.toList.map .failure = m.before ++ ps ∧
      c'.problems ++ e'.toList.map .failure = m.before' ++ ps' ∧
        List.Forall₂ (Problem.Alike m) ps ps' := by
  obtain ⟨ps, ps', hps, hps', hall⟩ := h.problems
  refine ⟨ps ++ e.toList.map .failure, ps' ++ e'.toList.map .failure, ?_, ?_, ?_⟩
  · rw [hps, List.append_assoc]
  · rw [hps', List.append_assoc]
  · refine List.rel_append hall ?_
    cases he with
    | none => exact .nil
    | some he => exact .cons (.failure he) .nil

/-- Two programs that are read alike differ in their places only. -/
theorem program_fresh (recover : Bool) (h : c.Matches .fresh c') :
    (program recover c).1.result.erase = (program recover c').1.result.erase ∧
      List.Forall₂ (Problem.Alike .fresh)
        ((program recover c).2.problems ++ (program recover c).1.failure.toList.map .failure)
        ((program recover c').2.problems ++ (program recover c').1.failure.toList.map .failure) := by
  have hproblems {c c' : Cursor} {e e' : Option ParseError} (h : c.Matches .fresh c')
      (he : Option.Rel (ParseError.Alike .fresh) e e') :
      List.Forall₂ (Problem.Alike .fresh) (c.problems ++ e.toList.map .failure)
        (c'.problems ++ e'.toList.map .failure) := by
    obtain ⟨ps, ps', hps, hps', hall⟩ := problems_alike h he
    rw [hps, hps']
    exact hall
  rcases program_alike recover h with ⟨text, span, span', r, r', hr, hr', htop⟩ |
    ⟨e, e', span, span', c₁, c₁', hr, hr', he, h₁⟩
  · rw [hr, hr']
    cases htop with
    | same ho h₁ _ => exact ⟨by simp [Program.erase, ho.result], hproblems h₁ ho.failure⟩
    | seam _ _ hseam _ => cases hseam.seam
  · rw [hr, hr']
    exact ⟨rfl, hproblems h₁ (.some (.lexical he))⟩

/-- Texts with the same tokens and the same brackets that touch have the same program apart from
places, with recovery and without, and the same is wrong with both. -/
theorem parse_alike {source source' : String} {ts ts' : List Token}
    (h : tokenize source = .ok ts) (h' : tokenize source' = .ok ts')
    (hkinds : ts.map Token.kind = ts'.map Token.kind)
    (htouch : touchingBrackets ts = touchingBrackets ts') (recover : Bool) :
    (parse source recover).Alike (parse source' recover) := by
  obtain ⟨c, c', hc, hc', hmatches⟩ := Cursor.matches_ofString h h' hkinds htouch
  obtain ⟨hprogram, hproblems⟩ := program_fresh recover hmatches
  rw [parse_eq_read, parse_eq_read, read, read, hc, hc']
  exact ⟨hprogram, Program.shape_eq_of_erase_eq hprogram,
    hproblems.imp fun _ _ hp => hp.sameTexts⟩

/-- Whether two texts have the same tokens and the same brackets that touch. -/
def sameTokens (source source' : String) : Bool :=
  match tokenize source, tokenize source' with
  | .ok ts, .ok ts' =>
    ts.map Token.kind = ts'.map Token.kind ∧ touchingBrackets ts = touchingBrackets ts'
  | _, _ => false

theorem exists_tokens_of_sameTokens {source source' : String} (h : sameTokens source source') :
    ∃ ts ts', tokenize source = .ok ts ∧ tokenize source' = .ok ts' ∧
      ts.map Token.kind = ts'.map Token.kind ∧ touchingBrackets ts = touchingBrackets ts' := by
  unfold sameTokens at h
  split at h
  · next ts ts' hts hts' => exact ⟨ts, ts', hts, hts', of_decide_eq_true h⟩
  · cases h

/-- A statement in error and one with a bracket that touches, on one line and on two. -/
theorem parse_alike_comment :
    sameTokens ") ; f[1]" ")\t; f[ 1] // last" ∧
      (parse ") ; f[1]" true).Alike (parse ")\t; f[ 1] // last" true) := by
  have hsame : sameTokens ") ; f[1]" ")\t; f[ 1] // last" := by decide +kernel
  obtain ⟨ts, ts', h, h', hkinds, htouch⟩ := exists_tokens_of_sameTokens hsame
  exact ⟨hsame, parse_alike h h' hkinds htouch true⟩

end Grammar
end WqSource
