import WqSource.Proofs.Alike.Program
import WqSource.Proofs.Token.Append

/-!
# Tokens on both sides of a line feed

The tokens of a text with a line feed and another text behind it are those of the text, then line
feeds, then those of the other text, if no bracket is left open in front of the line feed. Apart
from its depth and from whether its line has just begun, a lexer does not know what it has read.

## Main definitions

* `Lexer.followedBy`: a lexer with a line feed and a text behind its own.
* `Lexer.behindSeam`: the lexer behind that line feed.
* `depthBehind`: the brackets that tokens leave open.
* `Lexer.SameText`: lexers that stand in front of the same text at different places.

## Main statements

* `Lexer.stream_followedBy`: the tokens in front of the line feed.
* `Lexer.SameText.stream_alike`: the tokens behind it.
-/

namespace WqSource

variable {ds : List Char} {l l' l₁ : Lexer} {t : Token}

/-- The number of brackets open behind tokens, if so many are open in front. -/
def depthBehind (depth : Nat) (ts : List Token) : Nat :=
  ts.foldl (fun depth t => t.kind.depthAfter depth) depth

namespace Lexer

/-! ## In front of the line feed -/

/-- The lexer with a line feed and the given text behind what it has to read. -/
def followedBy (l : Lexer) (ds : List Char) : Lexer := { l with rest := l.rest ++ '\n' :: ds }

/-- The lexer behind the line feed and those that follow it. -/
def behindSeam (l : Lexer) (ds : List Char) : Lexer where
  rest := behindNewlines ('\n' :: ds)
  position := l.position.after (l.rest ++ newlines ('\n' :: ds))
  depth := 0
  lineStart := true

/-- All lexers of a text have the same line feed behind them. -/
theorem LeadsTo.behindSeam_eq {taken : List Char} (h : l.LeadsTo taken l₁) :
    l₁.behindSeam ds = l.behindSeam ds := by
  simp [behindSeam, h.rest, h.position]

theorem skip_followedBy {taken : List Char} (h : taken <+: l.rest) :
    (l.followedBy ds).skip taken = (l.skip taken).followedBy ds := by
  simp only [followedBy, skip, List.drop_append_of_le_length h.length_le]

theorem skipTrivia_followedBy : (l.followedBy ds).skipTrivia = l.skipTrivia.followedBy ds := by
  rw [skipTrivia, skipTrivia, ← skip_followedBy (trivia_front l.rest)]
  simp only [followedBy, trivia_append]

theorem shebang?_followedBy : (l.followedBy ds).shebang? = l.shebang? := by
  rcases l with ⟨rest, position, depth, lineStart⟩
  unfold followedBy shebang?
  dsimp only
  by_cases hoffset : position.offset = 0
  · rw [hoffset]
    match rest with
    | [] => rfl
    | [c] => by_cases hc : c = '#' <;> simp [hc]
    | c :: d :: cs =>
      by_cases hc : c = '#' ∧ d = '!'
      · obtain ⟨rfl, rfl⟩ := hc
        simp
      · simp_all
  · simp [hoffset]

/-- Line feeds at the end of a text meet the one behind it. -/
def MeetsSeam (t : Token) (l₁ : Lexer) : Prop :=
  t.kind = .endOfInput ∨ t.kind = .newline ∧ trivia l₁.rest = l₁.rest

/-- The line feeds behind a text, and perhaps some at its end. -/
def ReadsSeam (ds : List Char) (l : Lexer) (r : Except LexError Token × Lexer) : Prop :=
  ∃ t', r = (.ok t', l.behindSeam ds) ∧ t'.kind = .newline ∧
    t'.span.stop = (l.behindSeam ds).position

/-- A token read from the front of the text is read with a line feed behind the text, too. -/
theorem nextAt_of_scan {taken : List Char} {kind : Token.Kind}
    (hscan : scan l.atHostLine l.rest = .read taken (.ok kind))
    (hread : scan l.atHostLine (l.rest ++ '\n' :: ds) = .read taken (.ok kind)) :
    ∃ l₁, l.nextAt = (.ok ⟨kind, String.ofList taken, ⟨l.position, (l.skip taken).position⟩⟩, l₁) ∧
      (l.followedBy ds).nextAt = (.ok ⟨kind, String.ofList taken,
        ⟨l.position, (l.skip taken).position⟩⟩, l₁.followedBy ds) := by
  have hread : scan (l.followedBy ds).atHostLine (l.followedBy ds).rest = .read taken (.ok kind) :=
    hread
  unfold nextAt
  rw [hscan, hread]
  dsimp only
  rw [skip_followedBy (scan_front hscan)]
  exact ⟨_, rfl, rfl⟩

/-- What is read from line feeds that are put behind a text, or that meet those. -/
theorem nextAt_readsSeam (hd : l.depth = 0)
    (hread : scan l.atHostLine (l.rest ++ '\n' :: ds) =
      .read (l.rest ++ newlines ('\n' :: ds)) (.ok .newline)) :
    ReadsSeam ds l (l.followedBy ds).nextAt := by
  have hread : scan (l.followedBy ds).atHostLine (l.followedBy ds).rest =
      .read (l.rest ++ newlines ('\n' :: ds)) (.ok .newline) := hread
  unfold nextAt
  rw [hread]
  refine ⟨_, Prod.ext rfl ?_, rfl, rfl⟩
  simp [behindSeam, skip, followedBy, behindNewlines, hd, Token.Kind.depthAfter, List.drop_append]

theorem nextAt_followedBy (ds : List Char) (h : l.nextAt = (.ok t, l₁)) :
    t.kind ≠ .endOfInput ∧ (l.followedBy ds).nextAt = (.ok t, l₁.followedBy ds) ∨
      MeetsSeam t l₁ ∧ (l.depth = 0 → ReadsSeam ds l (l.followedBy ds).nextAt) := by
  cases hscan : scan l.atHostLine l.rest with
  | finished =>
    have hrest := eq_nil_of_scan_finished hscan
    have hend : l.nextAt = (.ok (.ending l.position), l) := by
      unfold nextAt
      rw [hscan]
    rw [hend] at h
    cases h
    refine .inr ⟨.inl rfl, fun hd => nextAt_readsSeam hd ?_⟩
    rw [hrest]
    rfl
  | illegal c =>
    unfold nextAt at h
    rw [hscan] at h
    cases h
  | read taken outcome =>
    cases outcome with
    | error fault =>
      unfold nextAt at h
      rw [hscan] at h
      cases h
    | ok kind =>
      have hend : kind ≠ .endOfInput := by
        rintro rfl
        exact (scan_valid hscan).1
      by_cases hapart : scan l.atHostLine (l.rest ++ '\n' :: ds) = .read taken (.ok kind)
      · obtain ⟨l₂, hnext, hnext'⟩ := nextAt_of_scan hscan hapart
        rw [hnext] at h
        cases h
        exact .inl ⟨hend, hnext'⟩
      · have hkind : kind = .newline := by
          by_contra hkind
          exact hapart (scan_append hscan hkind)
        subst hkind
        obtain ⟨es, hrest, rfl⟩ := (scan_kind hscan).1 rfl
        have hread : scan l.atHostLine (l.rest ++ '\n' :: ds) =
            .read (newlines ('\n' :: (es ++ '\n' :: ds))) (.ok .newline) := by
          rw [hrest]
          rfl
        by_cases hall : trivia (behindNewlines l.rest) = behindNewlines l.rest
        · unfold nextAt at h
          rw [hscan] at h
          cases h
          refine .inr ⟨.inr ⟨rfl, hall⟩, fun hd => nextAt_readsSeam hd ?_⟩
          rw [hrest] at hall
          rw [hread, (newlines_append es ds).1 hall, hrest]
        · rw [hrest] at hall
          rw [hread, (newlines_append es ds).2 hall, ← hrest] at hapart
          exact absurd rfl hapart

/-- What a lexer reads with a line feed behind its text, given what it reads without. At the end
of the text, and for line feeds there, that is the line feed. -/
theorem next_followedBy (ds : List Char) (h : l.next = (.ok t, l₁)) :
    t.kind ≠ .endOfInput ∧ (l.followedBy ds).next = (.ok t, l₁.followedBy ds) ∨
      MeetsSeam t l₁ ∧ (l.depth = 0 → ReadsSeam ds l (l.followedBy ds).next) := by
  unfold next at h ⊢
  rw [shebang?_followedBy]
  split at h
  · next line hline =>
    cases h
    left
    refine ⟨by simp [nextShebang], ?_⟩
    simp only [nextShebang, skip_followedBy (shebang?_front hline).1]
    rfl
  · have hskip : l.skipTrivia.behindSeam ds = l.behindSeam ds :=
      (leadsTo_skipTrivia l).behindSeam_eq
    rw [skipTrivia_followedBy, ReadsSeam, ← hskip]
    exact nextAt_followedBy ds h

/-! ## Streams -/

/-- In front of nothing but trivia only the end is ahead. -/
theorem stream_of_trivia (h : trivia l.rest = l.rest) : ∃ place, l.stream = .ended place := by
  have hshebang : l.shebang? = none := by
    unfold shebang?
    split
    · next hrest =>
      rw [hrest] at h
      cases h
    · rfl
  have hrest : l.skipTrivia.rest = [] := by simp [skipTrivia, skip, h]
  have hnext : l.next = (.ok (.ending l.skipTrivia.position), l.skipTrivia) := by
    unfold next nextAt
    rw [hshebang, hrest]
    rfl
  refine ⟨l.skipTrivia.position, ?_⟩
  rw [stream_eq, hnext]
  rfl

/-- With a line feed behind it, a text without faults that leaves no bracket open has the same
tokens up to there. -/
theorem stream_followedBy (ds : List Char) (hfault : l.stream.fault? = none)
    (hdepth : depthBehind l.depth l.stream.leading = 0) (stop : Nat) :
    TokenStream.Alike (some ⟨(l.behindSeam ds).position.offset, (l.behindSeam ds).stream⟩)
      l.depth stop stop l.stream (l.followedBy ds).stream := by
  fun_induction stream l generalizing stop with
  | case1 l t ht hk =>
    have hnext : l.next = (.ok t, l.next.2) := Prod.ext ht rfl
    rcases next_followedBy ds hnext with ⟨hend, -⟩ | ⟨-, hmeets⟩
    · exact absurd hk hend
    · have hzero : l.depth = 0 := hdepth
      obtain ⟨t', hread, hnewline, hstop⟩ := hmeets hzero
      rw [stream_of_next hread (by simp [hnewline]), hzero]
      exact .seam _ (by rw [hstop]) hnewline
  | case2 l t ht hk ih =>
    have hnext : l.next = (.ok t, l.next.2) := Prod.ext ht rfl
    have hdepth_eq : l.next.2.depth = t.kind.depthAfter l.depth := (next_reads hnext).depth_eq
    rcases next_followedBy ds hnext with ⟨-, hsame⟩ | ⟨hends, hmeets⟩
    · obtain ⟨taken, hleads⟩ := (next_extent l).leadsTo
      rw [stream_of_next hsame hk]
      refine .token rfl hk (fun _ => Iff.rfl) ?_
      change depthBehind (t.kind.depthAfter l.depth) l.next.2.stream.leading = 0 at hdepth
      rw [← hdepth_eq] at hdepth ⊢
      rw [← hleads.behindSeam_eq]
      exact ih hfault hdepth _
    · obtain ⟨hnewline, htrivia⟩ := hends.resolve_left hk
      obtain ⟨place, hended⟩ := stream_of_trivia htrivia
      rw [hended] at hdepth ⊢
      have hzero : l.depth = 0 := by
        simpa [depthBehind, TokenStream.leading, hnewline, Token.Kind.depthAfter,
          Token.ending] using hdepth
      obtain ⟨t', hread, hnewline', hstop⟩ := hmeets hzero
      rw [stream_of_next hread (by simp [hnewline']), hzero]
      exact .seamLine _ (by rw [hstop]) hnewline hnewline'
  | case3 => cases hfault
  | case4 => cases hfault

/-! ## Behind the line feed -/

/-- Two lexers in front of the same text, at whatever places. -/
structure SameText (l l' : Lexer) : Prop where
  rest : l'.rest = l.rest
  depth : l'.depth = l.depth
  lineStart : l'.lineStart = l.lineStart

/-- What two lexers read of the same text. -/
inductive SameRead (l l' : Lexer) :
    Except LexError Token × Lexer → Except LexError Token × Lexer → Prop where
  | token {t t' : Token} {m m' : Lexer} :
    t.kind = t'.kind → t.span.start = l.position → t'.span.start = l'.position → m.SameText m' →
      SameRead l l' (.ok t, m) (.ok t', m')
  | fault {e e' : LexError} {m m' : Lexer} :
    e.fault = e'.fault → m.SameText m' → SameRead l l' (.error e, m) (.error e', m')

namespace SameText

theorem skipTrivia (h : l.SameText l') : l.skipTrivia.SameText l'.skipTrivia :=
  ⟨by simp [Lexer.skipTrivia, skip, h.rest], h.depth, h.lineStart⟩

theorem nextAt (h : l.SameText l') : SameRead l l' l.nextAt l'.nextAt := by
  unfold Lexer.nextAt atHostLine
  rw [h.rest, h.depth, h.lineStart]
  split
  · exact .token rfl rfl rfl h
  · exact .fault rfl ⟨rfl, rfl, rfl⟩
  · next taken outcome hscan =>
    have hrest : (l'.skip taken).rest = (l.skip taken).rest := by simp [skip, h.rest]
    cases outcome with
    | error fault => exact .fault rfl ⟨hrest, h.depth, rfl⟩
    | ok kind => exact .token rfl rfl rfl ⟨hrest, rfl, rfl⟩

theorem next (h : l.SameText l') (hl : l.shebang? = none) (hl' : l'.shebang? = none) :
    SameRead l.skipTrivia l'.skipTrivia l.next l'.next := by
  rw [Lexer.next, hl, Lexer.next, hl']
  exact h.skipTrivia.nextAt

end SameText

theorem shebang?_of_pos (h : 0 < l.position.offset) : l.shebang? = none := by
  unfold shebang?
  split
  · omega
  · rfl

theorem offset_skipTrivia (l : Lexer) :
    l.skipTrivia.position.offset = l.position.offset ↔ trivia l.rest = [] := by
  constructor
  · intro h
    by_contra hne
    have : l.position.offset < l.skipTrivia.position.offset := Position.offset_lt_after hne
    omega
  · intro h
    simp [skipTrivia, skip, h]

/-- A read that is not the last one moves on. -/
theorem offset_lt_next (h : isLast l.next.1 = false) :
    l.position.offset < l.next.2.position.offset := by
  obtain ⟨taken, hrest, hposition⟩ := (next_extent l).leadsTo
  have hlt := next_rest_lt h
  have hne : taken ≠ [] := by
    rintro rfl
    rw [hrest] at hlt
    simp at hlt
  rw [hposition]
  exact Position.offset_lt_after hne

theorem SameText.touches (h : l.SameText l') {stop stop' : Nat}
    (hstop : l.position.offset = stop ∧ l'.position.offset = stop' ∨
      stop < l.position.offset ∧ stop' < l'.position.offset) :
    l.skipTrivia.position.offset = stop ↔ l'.skipTrivia.position.offset = stop' := by
  rcases hstop with ⟨rfl, rfl⟩ | ⟨hlt, hlt'⟩
  · rw [offset_skipTrivia, offset_skipTrivia, h.rest]
  · have hle := offset_le_skipTrivia l
    have hle' := offset_le_skipTrivia l'
    omega

/-- The streams of two lexers in front of the same text are alike. The place behind the last
token is where the lexers stand, or a fault stands between. -/
theorem SameText.stream_alike (h : l.SameText l') (hl : l.shebang? = none)
    (hl' : l'.shebang? = none) {stop stop' : Nat}
    (hstop : l.position.offset = stop ∧ l'.position.offset = stop' ∨
      stop < l.position.offset ∧ stop' < l'.position.offset) :
    TokenStream.Alike none l.depth stop stop' l.stream l'.stream := by
  induction hsize : l.rest.length using Nat.strongRecOn generalizing l l' stop stop' with
  | ind n ih =>
    subst hsize
    have hread := h.next hl hl'
    have hmoves := offset_lt_next (l := l)
    have hmoves' := offset_lt_next (l := l')
    have hshorter := next_rest_lt (l := l)
    have hextent := next_extent l
    have hextent' := next_extent l'
    have hreads {t : Token} {m : Lexer} := @next_reads l m t
    have herror {e : LexError} := next_error (l := l) (e := e)
    rw [stream_eq l, stream_eq l']
    generalize l.next = r at *
    generalize l'.next = r' at *
    cases hread with
    | @token t t' m m' hkind hstart hstart' hsame =>
      dsimp only
      by_cases hk : t.kind = .endOfInput
      · rw [if_pos hk, if_pos (hkind ▸ hk)]
        exact .ended _ _ rfl
      · have hlast : isLast (.ok t) = false := by simp [isLast, hk]
        have hlast' : isLast (.ok t') = false := by simp [isLast, ← hkind, hk]
        rw [if_neg hk, if_neg (hkind ▸ hk)]
        refine .token hkind hk (fun _ => ?_) ?_
        · rw [hstart, hstart']
          exact h.touches hstop
        · rw [hextent.stop t rfl, hextent'.stop t' rfl, ← (hreads rfl).depth_eq]
          exact ih _ (hshorter hlast) hsame (shebang?_of_pos (Nat.zero_lt_of_lt (hmoves hlast)))
            (shebang?_of_pos (Nat.zero_lt_of_lt (hmoves' hlast'))) (.inl ⟨rfl, rfl⟩) rfl
    | @fault e e' m m' hfault hsame =>
      have hsticky' : e'.isSticky = e.isSticky := by
        rw [LexError.isSticky, LexError.isSticky, hfault]
      dsimp only
      rw [hsticky']
      by_cases hs : e.isSticky = true
      · rw [if_pos hs, if_pos hs]
        exact .stuck rfl hfault
      · have hlast : isLast (.error e) = false := by simp [isLast, hs]
        have hlast' : isLast (.error e') = false := by simp [isLast, hsticky', hs]
        have hlt := hmoves hlast
        have hlt' := hmoves' hlast'
        rw [if_neg hs, if_neg hs]
        refine .fault hfault ?_
        rw [← (herror rfl).1]
        exact ih _ (hshorter hlast) hsame (shebang?_of_pos (Nat.zero_lt_of_lt hlt))
          (shebang?_of_pos (Nat.zero_lt_of_lt hlt')) (.inr (by dsimp only at hlt hlt'; omega)) rfl

end Lexer
end WqSource
