import TapeLang.Proofs.Texts

/-!
# Mirrored texts

A text is mirrored by exchanging `<` and `>` in it. Reading takes no notice of which way a move
goes: the program of a mirrored text is the mirrored program of the text, each instruction at the
same line and column, and a text that is refused is refused at the same place when it is mirrored.
-/

namespace TapeLang

/-! ## Seen from the other side -/

/-- The same operation seen from the other side. -/
def Op.mirror : Op → Op
  | .left => .right
  | .right => .left
  | .increment => .increment
  | .decrement => .decrement
  | .output => .output
  | .input => .input

namespace Text

/-- The two signs for a move are exchanged. -/
def mirrorChar (c : Char) : Char :=
  if c = '<' then '>' else if c = '>' then '<' else c

/-- A text in which the signs for a move are exchanged. -/
def mirror (text : String) : String := String.ofList (text.toList.map mirrorChar)

end Text

/-- The same place in the mirrored text. -/
def Location.mirror (l : Location) : Location := { l with statement := Text.mirror l.statement }

/-- The same statement seen from the other side. -/
def Node.mirror : Node → Node
  | .op o l => .op o.mirror (l.map Location.mirror)
  | .loop l body => .loop l.mirror (body.map Node.mirror)
  | .bare l => .bare (l.map Location.mirror)

/-- The same program seen from the other side. -/
def Program.mirror (p : Program) : Program := ⟨p.statements.map Node.mirror, p.finish.mirror⟩

/-- Operations are exchanged as their signs are. -/
def Token.Kind.mirror : Token.Kind → Token.Kind
  | .op o => .op o.mirror
  | .opening => .opening
  | .closing => .closing
  | .finish => .finish
  | .other => .other

/-- The token of the mirrored text. -/
def Token.mirror (k : Token) : Token := { k with kind := k.kind.mirror }

/-- Reading that has got equally far in the mirrored text. -/
def Scan.mirror (s : Scan) : Scan := { s with tokens := s.tokens.map Token.mirror }

/-- What the mirrored text is read from. -/
def Source.mirror (t : Source) : Source :=
  ⟨t.tokens.map Token.mirror, t.file, t.lines.map Text.mirror⟩

/-! ## Characters and lines -/

namespace Text

theorem mirrorChar_of_ne {c : Char} (hl : c ≠ '<') (hr : c ≠ '>') : mirrorChar c = c := by
  rw [mirrorChar, if_neg hl, if_neg hr]

/-- Newlines stay where they are. -/
theorem mirrorChar_eq_newline {c : Char} : mirrorChar c = '\n' ↔ c = '\n' := by
  unfold mirrorChar
  split
  · next h => subst h; decide
  · split
    · next h => subst h; decide
    · exact Iff.rfl

/-- Blank space stays where it is. -/
theorem isBlank_mirrorChar : isBlank ∘ mirrorChar = isBlank := by
  funext c
  unfold Function.comp mirrorChar
  split
  · next h => subst h; decide
  · split
    · next h => subst h; decide
    · rfl

theorem strip_mirror (cs : List Char) : strip (cs.map mirrorChar) = (strip cs).map mirrorChar := by
  rw [strip, List.dropWhile_map, ← List.map_reverse, List.dropWhile_map, ← List.map_reverse,
    isBlank_mirrorChar, strip]

theorem lines_mirror (cs : List Char) :
    lines (cs.map mirrorChar) = (lines cs).map (List.map mirrorChar) := by
  induction cs with
  | nil => rfl
  | cons c cs ih =>
    rw [List.map_cons, lines_cons, lines_cons, ih]
    cases lines cs <;> by_cases hc : c = '\n' <;> simp [addFront, mirrorChar_eq_newline, hc]

end Text

/-- A character stands for the operation that is mirrored. -/
theorem Token.Kind.ofChar?_mirror (c : Char) :
    ofChar? (Text.mirrorChar c) = (ofChar? c).map mirror := by
  cases h : Text.isInstruction c with
  | true =>
    rcases Text.isInstruction_cases h with ⟨o, rfl⟩ | rfl | rfl
    · cases o <;> decide
    · decide
    · decide
  | false =>
    have hl : c ≠ '<' := by
      rintro rfl
      exact absurd h (by decide)
    have hr : c ≠ '>' := by
      rintro rfl
      exact absurd h (by decide)
    rw [Text.mirrorChar_of_ne hl hr, Text.ofChar?_eq, h]
    rfl

/-! ## Tokens -/

theorem Scan.over_mirror (s : Scan) (cs : List Char) :
    s.mirror.over (cs.map Text.mirrorChar) = (s.over cs).mirror := by
  induction cs generalizing s with
  | nil => rfl
  | cons c cs ih =>
    have hkeep : s.mirror.keep (Text.mirrorChar c) = (s.keep c).mirror := by
      rw [keep, keep, Token.Kind.ofChar?_mirror]
      cases Token.Kind.ofChar? c <;> simp [mirror, Token.mirror]
    have hadvance (s : Scan) : s.mirror.advance (Text.mirrorChar c) = (s.advance c).mirror := by
      by_cases hc : c = '\n' <;> simp [advance, Text.mirrorChar_eq_newline, hc, mirror]
    rw [List.map_cons, over_cons, over_cons, hkeep, hadvance, ih]

namespace Source

theorem ofText_mirror (text file : String) :
    ofText (Text.mirror text) file = (ofText text file).mirror := by
  have htokens : Token.scan (Text.mirror text) = (Token.scan text).map Token.mirror := by
    have hover := Scan.over_mirror {} text.toList
    rw [show ({} : Scan).mirror = {} by simp [Scan.mirror]] at hover
    rw [Token.scan, Token.scan, Text.mirror, String.toList_ofList, hover]
    simp [Scan.mirror, Token.mirror, Token.Kind.mirror]
  have hlines : Text.lines (Text.mirror text).toList =
      (Text.lines text.toList).map (List.map Text.mirrorChar) := by
    rw [Text.mirror, String.toList_ofList, Text.lines_mirror]
  rw [ofText, ofText, htokens, hlines]
  simp [ofLines, mirror, Text.mirror, Text.strip_mirror]

variable (t : Source)

@[simp] theorem kind_mirror (i : Nat) : t.mirror.kind i = (t.kind i).mirror := by
  simp only [kind, mirror, Array.getElem?_map]
  cases t.tokens[i]? <;> rfl

theorem statement_mirror (line : Int) :
    t.mirror.statement line = Text.mirror (t.statement line) := by
  simp only [statement, mirror, Array.getElem?_map]
  split
  · rfl
  · cases t.lines[(line - 1).toNat]? <;> rfl

@[simp] theorem place_mirror (i : Nat) : t.mirror.place i = (t.place i).mirror := by
  have hplace (k : Token) : t.mirror.location k.mirror = (t.location k).mirror := by
    rw [location, statement_mirror]
    rfl
  rw [place, place, ← hplace]
  simp only [mirror, Array.getElem?_map]
  cases t.tokens[i]? <;> rfl

/-- The brackets match as before. -/
@[simp] theorem closer?_mirror (stop level i : Nat) :
    t.mirror.closer? stop level i = t.closer? stop level i := by
  fun_induction closer? t stop level i with
  | case1 level i hi hk ih =>
    rw [closer?, if_pos hi, kind_mirror, hk]
    exact ih
  | case2 level i hi hk hl =>
    rw [closer?, if_pos hi, kind_mirror, hk]
    exact if_pos hl
  | case3 level i hi hk hl ih =>
    rw [closer?, if_pos hi, kind_mirror, hk]
    exact (if_neg hl).trans ih
  | case4 level i hi ho hc ih =>
    rw [closer?, if_pos hi, kind_mirror]
    cases hk : t.kind i with
    | opening => exact absurd hk ho
    | closing => exact absurd hk hc
    | op | finish | other => exact ih
  | case5 level i hi => rw [closer?, if_neg hi]

end Source

namespace Program

open Source

/-- Reading a span leads to the mirrored statements. -/
theorem readSpan_mirror (t : Source) (stop depth i : Nat) (done : List Node) :
    readSpan t.mirror stop depth i (done.map Node.mirror) =
      (readSpan t stop depth i done).map fun r => (r.1.map Node.mirror, r.2) := by
  fun_induction readSpan t stop depth i done with
  | case1 stop depth i done hi o hk ih =>
    rw [readSpan_op hi (by rw [kind_mirror, hk]; rfl), ← ih, place_mirror, List.map_cons,
      Node.mirror]
    rfl
  | case2 stop depth i done hi hk hc =>
    rw [readSpan_unclosed hi (by rw [kind_mirror, hk]; rfl) (by rw [closer?_mirror, hc]),
      place_mirror]
    rfl
  | case3 stop depth i done hi hk p hc hd =>
    rw [readSpan_loop hi (by rw [kind_mirror, hk]; rfl) ((closer?_mirror ..).trans hc), if_pos hd]
    rfl
  | case4 stop depth i done hi hk p hc hd e hbody ih =>
    rw [readSpan_loop hi (by rw [kind_mirror, hk]; rfl) ((closer?_mirror ..).trans hc), if_neg hd]
    rw [hbody, List.map_nil] at ih
    rw [ih]
    rfl
  | case5 stop depth i done hi hk p hc hd body j hbody ihBody ihRest =>
    rw [readSpan_loop hi (by rw [kind_mirror, hk]; rfl) ((closer?_mirror ..).trans hc), if_neg hd]
    rw [hbody, List.map_nil] at ihBody
    rw [ihBody, ← ihRest, place_mirror, List.map_cons, Node.mirror]
    rfl
  | case6 stop depth i done hi hop ho ih =>
    have hpass : t.mirror.kind i ≠ .opening ∧ ∀ o, t.mirror.kind i ≠ .op o := by
      rw [kind_mirror]
      cases hk : t.kind i with
      | op o => exact absurd hk (hop o)
      | opening => exact absurd hk ho
      | closing | finish | other => exact ⟨nofun, nofun⟩
    rw [readSpan_pass hi hpass.1 hpass.2, ih]
  | case7 stop depth i done hi =>
    rw [readSpan_stop (Nat.le_of_not_lt hi), ← List.map_reverse]
    rfl

/-- The program of a mirrored text is the mirrored program, and a mirrored text is refused where the
text is. -/
theorem parse_mirror (text file : String) :
    parse (Text.mirror text) file = (parse text file).map mirror := by
  rw [parse, parse, Source.ofText_mirror]
  generalize Source.ofText text file = t
  have hsize : t.mirror.tokens.size = t.tokens.size := Array.size_map
  have hread := readSpan_mirror t (t.tokens.size - 1) 0 0 []
  rw [ofSource, ofSource, hsize]
  split
  · rfl
  · simp only [List.map_nil] at hread
    simp only [hread]
    cases readSpan t (t.tokens.size - 1) 0 0 [] with
    | error e => rfl
    | ok r => simp [Except.map, mirror]

end Program

end TapeLang
