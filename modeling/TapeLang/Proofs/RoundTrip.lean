import TapeLang.Proofs.Texts

/-!
# Reading and writing

Reading a text and writing its program back gives the code of the text, and reading what a list of
statements is written as gives a program of the same shape. A program has one operation for each
operation character of its text.
-/

namespace TapeLang

namespace Node

theorem isInstruction_of_mem_written {ns : List Node} {c : Char} (h : c ∈ written ns) :
    Text.isInstruction c = true := by
  fun_induction written ns with
  | case1 => exact absurd h List.not_mem_nil
  | case2 o l rest ih =>
    rcases List.mem_cons.1 h with rfl | h
    · exact Text.isInstruction_symbol o
    · exact ih h
  | case3 l body rest ihBody ihRest =>
    rcases List.mem_append.1 h with h | h
    · rcases List.mem_cons.1 h with rfl | h
      · decide
      · exact ihBody h
    · rcases List.mem_cons.1 h with rfl | h
      · decide
      · exact ihRest h
  | case4 l rest ih => exact ih h

/-- In a written form there is no commentary and no stray. -/
theorem code_written (ns : List Node) : Text.code (written ns) = (written ns).zipIdx := by
  have hall : Text.instructions (written ns) = (written ns).zipIdx := by
    refine List.filter_eq_self.2 fun a ha => ?_
    obtain ⟨-, hc⟩ := List.mem_zipIdx' ha
    rw [hc]
    exact isInstruction_of_mem_written (List.getElem_mem _)
  have hdrop := dropStrays_append (nested_written ns 0) 0 []
  rw [List.append_nil, dropStrays, List.append_nil] at hdrop
  rw [Text.code, hall]
  exact hdrop

/-- In a written form every bracket finds its partner, and the pairs are as deep as the list. -/
theorem brackets_written (ns : List Node) :
    (Text.brackets (written ns)).opened = [] ∧
      ∀ k, (∀ p ∈ (Text.brackets (written ns)).pairs, p.level ≤ k) ↔ depth ns ≤ k := by
  obtain ⟨ps, he, -, hlevel⟩ := (nested_written ns 0).readAll {} (fun _ => rfl)
  have hb : Text.brackets (written ns) = ⟨[], ps⟩ := by
    rw [Text.brackets, he, List.append_nil]
  simp only [List.length_nil, Nat.zero_add] at hlevel
  rw [hb]
  exact ⟨rfl, hlevel⟩

end Node

/-- A program is written as the code of its text. -/
theorem written_parse {text file : String} {p : Program} (hp : Program.parse text file = .ok p) :
    Node.written p.statements = (Text.code text.toList).map Prod.fst := by
  rw [← Node.map_fst_flat, Text.flat_parse hp, List.map_map]
  rfl

/-- What a list of statements is written as is read as a program of the same shape. -/
theorem exists_parse_of_written (file : String) {ns : List Node} (hplain : Node.Plain ns)
    (hd : Node.depth ns ≤ Program.maxNesting) :
    ∃ p, Program.parse (String.ofList (Node.written ns)) file = .ok p ∧
      Node.SameShape ns p.statements := by
  obtain ⟨ho, hl⟩ := Node.brackets_written ns
  have hlist : (String.ofList (Node.written ns)).toList = Node.written ns := by simp
  obtain ⟨p, hp⟩ := Text.exists_parse (String.ofList (Node.written ns)) file
    (by rw [hlist, ho]) (by rw [hlist]; exact (hl _).2 hd)
  obtain ⟨-, hns, -, -⟩ := Program.ofSource_eq_ok_iff.1 hp
  refine ⟨p, hp, Node.sameShape_of_written hplain hns.plain ?_⟩
  rw [written_parse hp, hlist, Node.code_written, List.zipIdx_map_fst]

/-- Writing undoes reading and reading undoes writing, up to commentary, strays and places. -/
theorem parse_written (file : String) :
    (∀ text : String, (Text.brackets text.toList).opened = [] →
      (∀ p ∈ (Text.brackets text.toList).pairs, p.level ≤ 420) →
      ∃ p, Program.parse text file = .ok p ∧
        Node.written p.statements = (Text.code text.toList).map Prod.fst) ∧
    ∀ ns : List Node, Node.Plain ns → Node.depth ns ≤ 420 →
      ∃ p, Program.parse (String.ofList (Node.written ns)) file = .ok p ∧
        Node.SameShape ns p.statements := by
  constructor
  · intro text ho hl
    obtain ⟨p, hp⟩ := Text.exists_parse text file ho
      fun q hq => Nat.le_trans (hl q hq) (by decide)
    exact ⟨p, hp, written_parse hp⟩
  · intro ns hplain hd
    exact exists_parse_of_written file hplain (Nat.le_trans hd (by decide))

/-- Commentary and a stray bracket go; `<[,]` comes back in its own shape. -/
theorem parse_written_commented :
    (∃ p, Program.parse "a+]b[-[c]]." "<string>" = .ok p ∧
      Node.written p.statements = ['+', '[', '-', '[', ']', ']', '.']) ∧
    ∃ p, Program.parse (String.ofList (Node.written
        [.op .left none, .loop ⟨"", 1, 1, ""⟩ [.op .input none]])) "<string>" = .ok p ∧
      Node.SameShape [.op .left none, .loop ⟨"", 1, 1, ""⟩ [.op .input none]] p.statements := by
  obtain ⟨hread, hwrite⟩ := parse_written "<string>"
  constructor
  · obtain ⟨p, hp, hw⟩ := hread "a+]b[-[c]]." (by decide) (by decide)
    exact ⟨p, hp, hw.trans (by decide)⟩
  · exact hwrite _ (by simp [Node.Plain]) (by simp [Node.depth])

/-! ## Counting operations -/

namespace Text

/-- The six characters that an operation is written as. -/
def isOperation (c : Char) : Bool := ['<', '>', '+', '-', '.', ','].contains c

theorem isOperation_iff {c : Char} : isOperation c = true ↔ ∃ o : Op, c = o.symbol := by
  have hmem : isOperation c = true ↔ c ∈ Op.all.map Op.symbol := List.contains_iff_mem
  rw [hmem, List.mem_map]
  constructor
  · rintro ⟨o, -, ho⟩
    exact ⟨o, ho.symm⟩
  · rintro ⟨o, rfl⟩
    exact ⟨o, by cases o <;> decide, rfl⟩

theorem isInstruction_of_isOperation {c : Char} (h : isOperation c = true) :
    isInstruction c = true := by
  obtain ⟨o, rfl⟩ := isOperation_iff.1 h
  exact isInstruction_symbol o

/-- A closing bracket is no operation. -/
theorem not_isOperation_of_closing {c : Char} (h : Token.Kind.ofChar c = .closing) :
    isOperation c = false := by
  by_contra hc
  obtain ⟨o, rfl⟩ := isOperation_iff.1 (eq_true_of_ne_false hc)
  rw [Token.Kind.ofChar_symbol] at h
  cases h

/-- Commentary and strays hold no operation. -/
theorem countP_code (cs : List Char) :
    ((code cs).map Prod.fst).countP isOperation = cs.countP isOperation := by
  calc ((code cs).map Prod.fst).countP isOperation
      = ((dropStrays Token.Kind.ofChar 0 (cs.filter isInstruction)).filter isOperation).length := by
        rw [map_fst_code, List.countP_eq_length_filter]
    _ = (cs.filter isInstruction).countP isOperation := by
        rw [filter_dropStrays (fun _ => not_isOperation_of_closing), List.countP_eq_length_filter]
    _ = cs.countP isOperation := by
        rw [List.countP_filter]
        refine List.countP_congr fun c _ => ?_
        rw [Bool.and_eq_true, and_iff_left_of_imp isInstruction_of_isOperation]

end Text

/-- The operations of a list are the operation characters of its written form. -/
theorem Node.count_eq_countP {ns : List Node} (h : Plain ns) :
    count ns = (written ns).countP Text.isOperation := by
  fun_induction count ns with
  | case1 => rw [written, List.countP_nil]
  | case2 o l rest ih =>
    rw [Plain] at h
    rw [written, List.countP_cons_of_pos (Text.isOperation_iff.2 ⟨o, rfl⟩), ih h]
  | case3 l body rest ihBody ihRest =>
    rw [Plain] at h
    rw [written, List.cons_append, List.countP_cons_of_neg (by decide), List.countP_append,
      List.countP_cons_of_neg (by decide), ihBody h.1, ihRest h.2]
  | case4 l rest ih =>
    rw [Plain] at h
    exact h.elim

/-- A program has as many operations as its text has operation characters. -/
theorem count_parse (text file : String) (ho : (Text.brackets text.toList).opened = [])
    (hl : ∀ p ∈ (Text.brackets text.toList).pairs, p.level ≤ 420) :
    ∃ p, Program.parse text file = .ok p ∧
      Node.count p.statements = text.toList.countP Text.isOperation := by
  obtain ⟨p, hp⟩ := Text.exists_parse text file ho fun q hq => Nat.le_trans (hl q hq) (by decide)
  obtain ⟨-, hns, -, -⟩ := Program.ofSource_eq_ok_iff.1 hp
  refine ⟨p, hp, ?_⟩
  rw [Node.count_eq_countP hns.plain, written_parse hp, Text.countP_code]

/-- Two strays, two loops, a newline and commentary leave the five operations. -/
theorem count_parse_commented :
    (Text.brackets "]a,\n[-[.]\n]>]b+".toList).opened = [] ∧
      (∀ p ∈ (Text.brackets "]a,\n[-[.]\n]>]b+".toList).pairs, p.level ≤ 420) ∧
      ∃ p, Program.parse "]a,\n[-[.]\n]>]b+" "<string>" = .ok p ∧
        Node.count p.statements = 5 := by
  have ho : (Text.brackets "]a,\n[-[.]\n]>]b+".toList).opened = [] := by decide
  have hl : ∀ p ∈ (Text.brackets "]a,\n[-[.]\n]>]b+".toList).pairs, p.level ≤ 420 := by decide
  obtain ⟨p, hp, hcount⟩ := count_parse "]a,\n[-[.]\n]>]b+" "<string>" ho hl
  exact ⟨ho, hl, p, hp, hcount.trans (by decide)⟩

end TapeLang
