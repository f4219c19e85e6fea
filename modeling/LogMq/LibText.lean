import Mathlib.Tactic

/-! Texts of bytes as the standard streams write and read them: decimal numbers, lines, words between white space,
and names that are split at the last occurrence of a byte. -/

namespace Text

/-! ### Decimal numbers -/

/-- `std::to_string` of a number that is not negative. -/
def decimal (n : Nat) : List UInt8 := (Nat.toDigits 10 n).map fun c => UInt8.ofNat c.toNat

def isDigit (b : UInt8) : Bool := 48 ≤ b && b ≤ 57

/-- The number written by some digits. -/
def digitsValue (digits : List UInt8) (value : Nat) : Nat :=
  digits.foldl (fun value digit => 10 * value + (digit.toNat - 48)) value

theorem toNat_ofNat_of_isDigit {c : Char} (h : c.isDigit = true) :
    (UInt8.ofNat c.toNat).toNat = c.toNat ∧ 48 ≤ c.toNat ∧ c.toNat ≤ 57 := by
  simp only [Char.isDigit, Bool.and_eq_true, decide_eq_true_eq, ge_iff_le, UInt32.le_iff_toNat_le] at h
  have hdigit : 48 ≤ c.toNat ∧ c.toNat ≤ 57 := h
  exact ⟨UInt8.toNat_ofNat_of_lt' (lt_of_le_of_lt hdigit.2 (by decide)), hdigit⟩

theorem isDigit_of_mem_decimal {n : Nat} {b : UInt8} (h : b ∈ decimal n) : isDigit b = true := by
  obtain ⟨c, hc, rfl⟩ := List.mem_map.mp h
  obtain ⟨hvalue, hlow, hhigh⟩ :=
    toNat_ofNat_of_isDigit (Nat.isDigit_of_mem_toDigits (by decide) (by decide) hc)
  rw [isDigit, Bool.and_eq_true, decide_eq_true_eq, decide_eq_true_eq, UInt8.le_iff_toNat_le, UInt8.le_iff_toNat_le,
    hvalue]
  exact ⟨hlow, hhigh⟩

theorem decimal_ne_nil (n : Nat) : decimal n ≠ [] := by
  unfold decimal
  rw [Ne, List.map_eq_nil_iff]
  exact Nat.toDigits_ne_nil

theorem digitsValue_map {digits : List Char} (h : ∀ c ∈ digits, c.isDigit = true) (value : Nat) :
    digitsValue (digits.map fun c => UInt8.ofNat c.toNat) value = Nat.ofDigitChars 10 digits value := by
  induction digits generalizing value with
  | nil => rfl
  | cons c rest ih =>
      obtain ⟨hvalue, -⟩ := toNat_ofNat_of_isDigit (h c List.mem_cons_self)
      rw [Nat.ofDigitChars_cons, ← ih fun d hd => h d (List.mem_cons_of_mem _ hd)]
      show digitsValue _ (10 * value + ((UInt8.ofNat c.toNat).toNat - 48)) = _
      rw [hvalue]
      rfl

theorem digitsValue_decimal (n : Nat) : digitsValue (decimal n) 0 = n := by
  rw [decimal, digitsValue_map fun c hc => Nat.isDigit_of_mem_toDigits (by decide) (by decide) hc,
    Nat.ofDigitChars_ten_toDigits]

theorem le_digitsValue (digits : List UInt8) (value : Nat) : value ≤ digitsValue digits value := by
  induction digits generalizing value with
  | nil => exact Nat.le_refl _
  | cons digit rest ih =>
      have hrest : 10 * value + (digit.toNat - 48) ≤ digitsValue (digit :: rest) value := ih _
      omega

theorem digitsValue_cons (digit : UInt8) (rest : List UInt8) (value : Nat) :
    digitsValue (digit :: rest) value = digitsValue rest (10 * value + (digit.toNat - 48)) := by
  rw [digitsValue, List.foldl_cons, digitsValue]

/-- Zeros in front do not count. -/
theorem digitsValue_zeros (count : Nat) (digits : List UInt8) :
    digitsValue (List.replicate count 48 ++ digits) 0 = digitsValue digits 0 := by
  have hzero : 10 * 0 + ((48 : UInt8).toNat - 48) = 0 := by decide
  induction count with
  | zero => rw [List.replicate_zero, List.nil_append]
  | succ count ih => rw [List.replicate_succ, List.cons_append, digitsValue_cons, hzero, ih]

/-! ### Numbers with a bound -/

/-- A number that is read digit by digit and must not exceed `bound`, which is checked before each product. -/
def readBounded (bound : Int) : List UInt8 → Int → Option Int
  | [], value => some value
  | digit :: rest, value =>
      if digit < 48 ∨ 57 < digit then none
      else if value > (bound - (digit.toNat - 48)) / 10 then none
      else readBounded bound rest (value * 10 + (digit.toNat - 48))

/-- What is computed on the way: the bound, the product and the sum of each digit. -/
def boundedSums (bound : Int) : List UInt8 → Int → List Int
  | [], _ => []
  | digit :: rest, value =>
      if digit < 48 ∨ 57 < digit then []
      else if value > (bound - (digit.toNat - 48)) / 10 then [bound - (digit.toNat - 48)]
      else (bound - (digit.toNat - 48)) :: (value * 10) :: (value * 10 + (digit.toNat - 48)) ::
        boundedSums bound rest (value * 10 + (digit.toNat - 48))

theorem isDigit_iff {digit : UInt8} : isDigit digit = true ↔ ¬ (digit < 48 ∨ 57 < digit) := by
  rw [isDigit, Bool.and_eq_true, decide_eq_true_eq, decide_eq_true_eq, not_or, UInt8.not_lt, UInt8.not_lt]

theorem isDigit_bounds {digit : UInt8} (h : isDigit digit = true) : 48 ≤ digit.toNat ∧ digit.toNat ≤ 57 := by
  rw [isDigit, Bool.and_eq_true, decide_eq_true_eq, decide_eq_true_eq, UInt8.le_iff_toNat_le,
    UInt8.le_iff_toNat_le] at h
  exact h

/-- **The check is exact.** A string is read exactly if it consists of digits whose value is within the bound. -/
theorem readBounded_eq_some {bound number : Int} {digits : List UInt8} {value : Nat} (hvalue : (value : Int) ≤ bound) :
    readBounded bound digits value = some number ↔
      (∀ digit ∈ digits, isDigit digit = true) ∧ number = digitsValue digits value ∧ number ≤ bound := by
  induction digits generalizing value with
  | nil =>
      constructor
      · intro h
        cases h
        exact ⟨fun _ hmem => absurd hmem List.not_mem_nil, rfl, hvalue⟩
      · rintro ⟨-, rfl, -⟩
        rfl
  | cons digit rest ih =>
      rw [readBounded, List.forall_mem_cons, digitsValue_cons]
      by_cases hdigit : isDigit digit = true
      · obtain ⟨hlow, hhigh⟩ := isDigit_bounds hdigit
        have hnext :
            (value : Int) * 10 + ((digit.toNat : Int) - 48) = ((10 * value + (digit.toNat - 48) : Nat) : Int) := by
          omega
        rw [if_neg (isDigit_iff.mp hdigit), hnext]
        by_cases hlarge : (value : Int) > (bound - ((digit.toNat : Int) - 48)) / 10
        · -- the value only grows from here
          have hgrows := le_digitsValue rest (10 * value + (digit.toNat - 48))
          rw [if_pos hlarge]
          constructor
          · exact nofun
          · rintro ⟨-, rfl, hle⟩
            omega
        · rw [if_neg hlarge, ih (by omega)]
          exact ⟨fun h => ⟨⟨hdigit, h.1⟩, h.2⟩, fun h => ⟨h.1.2, h.2⟩⟩
      · rw [if_pos (not_not.mp fun h => hdigit (isDigit_iff.mpr h))]
        exact ⟨nofun, fun h => absurd h.1.1 hdigit⟩

/-- Some digits that spell a number within a bound. -/
structure Spells (bound : Int) (digits : List UInt8) (number : Int) : Prop where
  nonempty : digits ≠ []
  isDigit : ∀ digit ∈ digits, isDigit digit = true
  value : number = digitsValue digits 0
  le : number ≤ bound

theorem readBounded_iff_spells {bound number : Int} {digits : List UInt8} (hbound : 0 ≤ bound) (hsome : digits ≠ []) :
    readBounded bound digits 0 = some number ↔ Spells bound digits number :=
  (@readBounded_eq_some _ _ _ 0 hbound).trans
    ⟨fun h => ⟨hsome, h.1, h.2.1, h.2.2⟩, fun h => ⟨h.isDigit, h.value, h.le⟩⟩

theorem Spells.nonneg {bound number : Int} {digits : List UInt8} (h : Spells bound digits number) : 0 ≤ number := by
  rw [h.value]
  exact Int.natCast_nonneg _

theorem spells_decimal {bound : Int} {n : Nat} (h : (n : Int) ≤ bound) : Spells bound (decimal n) n where
  nonempty := decimal_ne_nil n
  isDigit _ hdigit := isDigit_of_mem_decimal hdigit
  value := by rw [digitsValue_decimal]
  le := h

/-- Zeros in front of some digits spell the same number. -/
theorem Spells.zeros {bound number : Int} {digits : List UInt8} (h : Spells bound digits number) (count : Nat) :
    Spells bound (List.replicate count 48 ++ digits) number where
  nonempty := List.append_ne_nil_of_right_ne_nil _ h.nonempty
  isDigit digit hdigit := by
    rcases List.mem_append.mp hdigit with hzero | hback
    · rw [List.eq_of_mem_replicate hzero]
      rfl
    · exact h.isDigit digit hback
  value := by rw [digitsValue_zeros, h.value]
  le := h.le

/-- **Nothing overflows.** Whatever is computed on the way is between zero and the bound. -/
theorem boundedSums_le {bound value : Int} {digits : List UInt8} (hbound : 9 ≤ bound) (hnonneg : 0 ≤ value) :
    ∀ sum ∈ boundedSums bound digits value, 0 ≤ sum ∧ sum ≤ bound := by
  induction digits generalizing value with
  | nil => exact fun _ hmem => absurd hmem List.not_mem_nil
  | cons digit rest ih =>
      rw [boundedSums]
      by_cases hdigit : isDigit digit = true
      · obtain ⟨hlow, hhigh⟩ := isDigit_bounds hdigit
        rw [if_neg (isDigit_iff.mp hdigit)]
        split_ifs with hlarge
        · rw [List.forall_mem_singleton]
          omega
        · rw [List.forall_mem_cons, List.forall_mem_cons, List.forall_mem_cons]
          exact ⟨by omega, by omega, by omega, ih (by omega)⟩
      · rw [if_pos (not_not.mp fun h => hdigit (isDigit_iff.mpr h))]
        exact fun _ hmem => absurd hmem List.not_mem_nil

/-! ### Splitting at the last occurrence -/

/-- The parts of a name before and behind the last occurrence of a byte. -/
def splitLast (mark : UInt8) (name : List UInt8) : Option (List UInt8 × List UInt8) :=
  match name.reverse.dropWhile (· != mark) with
  | [] => none
  | _ :: front => some (front.reverse, (name.reverse.takeWhile (· != mark)).reverse)

theorem splitLast_append {mark : UInt8} {back : List UInt8} (hback : mark ∉ back) (front : List UInt8) :
    splitLast mark (front ++ mark :: back) = some (front, back) := by
  have hkept : ∀ b ∈ back.reverse, (b != mark) = true := by
    intro b hb
    rw [bne_iff_ne]
    rintro rfl
    exact hback (List.mem_reverse.mp hb)
  have hreverse : (front ++ mark :: back).reverse = back.reverse ++ mark :: front.reverse := by
    rw [List.reverse_append, List.reverse_cons, List.append_assoc, List.singleton_append]
  unfold splitLast
  rw [hreverse, List.dropWhile_append_of_pos hkept, List.takeWhile_append_of_pos hkept,
    List.dropWhile_cons_of_neg (by simp), List.takeWhile_cons_of_neg (by simp)]
  simp only [List.append_nil, List.reverse_reverse]

theorem splitLast_eq_some {mark : UInt8} {name front back : List UInt8} :
    splitLast mark name = some (front, back) ↔ name = front ++ mark :: back ∧ mark ∉ back := by
  constructor
  · intro h
    unfold splitLast at h
    have hname := @List.takeWhile_append_dropWhile _ (· != mark) name.reverse
    cases hdrop : name.reverse.dropWhile (· != mark) with
    | nil =>
        rw [hdrop] at h
        exact nomatch h
    | cons head rest =>
        have hhead := List.head?_dropWhile_not (· != mark) name.reverse
        rw [hdrop] at h hname hhead
        obtain ⟨rfl, rfl⟩ := Prod.mk.inj (Option.some.inj h)
        have hmark : head = mark := by simpa using hhead
        refine ⟨?_, fun hmem => ?_⟩
        · have hreverse := congrArg List.reverse hname
          rw [List.reverse_reverse, List.reverse_append, List.reverse_cons, hmark, List.append_assoc,
            List.singleton_append] at hreverse
          exact hreverse.symm
        · have hother := List.all_eq_true.mp List.all_takeWhile mark (List.mem_reverse.mp hmem)
          rw [bne_self_eq_false] at hother
          exact Bool.false_ne_true hother
  · rintro ⟨rfl, hback⟩
    exact splitLast_append hback front

/-! ### Words and lines -/

/-- White space in the classic locale. -/
def isSpace (b : UInt8) : Bool := b == 32 || (9 ≤ b && b ≤ 13)

/-- A word has at least one byte and no white space. -/
def IsWord (word : List UInt8) : Prop := word ≠ [] ∧ ∀ b ∈ word, isSpace b = false

/-- What comes next is not part of a word. -/
def Ends (rest : List UInt8) : Prop := ∀ b ∈ rest.head?, isSpace b = true

/-- `stream >> word`. -/
def readWord (input : List UInt8) : Option (List UInt8 × List UInt8) :=
  let rest := input.dropWhile isSpace
  match rest.takeWhile (fun b => !isSpace b) with
  | [] => none
  | word => some (word, rest.dropWhile fun b => !isSpace b)

/-- The number of an optional sign and some digits. -/
def readSigned (input : List UInt8) : Option (Int × List UInt8) :=
  let (negative, rest) :=
    match input with
    | 45 :: rest => (true, rest)
    | 43 :: rest => (false, rest)
    | rest => (false, rest)
  match rest.takeWhile isDigit with
  | [] => none
  | digits => some (if negative then -(digitsValue digits 0 : Int) else digitsValue digits 0, rest.dropWhile isDigit)

/-- `stream >> number` for a number of 64 bits: one out of range is a failure. -/
def readInt64 (input : List UInt8) : Option (Int × List UInt8) :=
  match readSigned (input.dropWhile isSpace) with
  | none => none
  | some (value, rest) => if -2 ^ 63 ≤ value ∧ value < 2 ^ 63 then some (value, rest) else none

/-- `stream >> number` for a number of 64 bits without a sign: what a minus sign gives wraps around. -/
def readNat64 (input : List UInt8) : Option (Nat × List UInt8) :=
  match readSigned (input.dropWhile isSpace) with
  | none => none
  | some (value, rest) => if value.natAbs < 2 ^ 64 then some ((value % 2 ^ 64).toNat, rest) else none

/-- `std::getline`: it fails at the end of the input only. -/
def readLine (input : List UInt8) : Option (List UInt8 × List UInt8) :=
  if input = [] then none else some (input.takeWhile (· != 10), (input.dropWhile (· != 10)).drop 1)

/-- What repeated calls of `std::getline` read, behind the start of a line in reverse. -/
def linesFrom : List UInt8 → List UInt8 → List (List UInt8)
  | [], [] => []
  | front, [] => [front.reverse]
  | front, b :: rest => if b = 10 then front.reverse :: linesFrom [] rest else linesFrom (b :: front) rest

/-- The lines of an input. -/
def lines (input : List UInt8) : List (List UInt8) := linesFrom [] input

theorem isSpace_of_isDigit {b : UInt8} (h : isDigit b = true) : isSpace b = false := by
  simp only [isDigit, Bool.and_eq_true, decide_eq_true_eq, UInt8.le_iff_toNat_le] at h
  simp only [isSpace, Bool.or_eq_false_iff, Bool.and_eq_false_iff, beq_eq_false_iff_ne, ne_eq, decide_eq_false_iff_not,
    UInt8.le_iff_toNat_le, ← UInt8.toNat_inj]
  have h48 : (48 : UInt8).toNat = 48 := rfl
  have h57 : (57 : UInt8).toNat = 57 := rfl
  have h32 : (32 : UInt8).toNat = 32 := rfl
  have h13 : (13 : UInt8).toNat = 13 := rfl
  omega

theorem isWord_decimal (n : Nat) : IsWord (decimal n) :=
  ⟨decimal_ne_nil n, fun _ hb => isSpace_of_isDigit (isDigit_of_mem_decimal hb)⟩

theorem Ends.space (rest : List UInt8) : Ends (32 :: rest) := by
  intro b hb
  cases hb
  rfl

theorem Ends.newline (rest : List UInt8) : Ends (10 :: rest) := by
  intro b hb
  cases hb
  rfl

theorem Ends.nil : Ends [] := by
  intro b hb
  cases hb

/-- The longest prefix of bytes with a property, if the next byte does not have it. -/
theorem span_append {p : UInt8 → Bool} {front rest : List UInt8} (hfront : ∀ b ∈ front, p b = true)
    (hrest : ∀ b ∈ rest.head?, p b = false) :
    (front ++ rest).takeWhile p = front ∧ (front ++ rest).dropWhile p = rest := by
  rw [List.takeWhile_append_of_pos hfront, List.dropWhile_append_of_pos hfront]
  cases rest with
  | nil => exact ⟨List.append_nil _, rfl⟩
  | cons b tail =>
      have hb : ¬ p b = true := by
        rw [hrest b rfl]
        exact Bool.false_ne_true
      rw [List.takeWhile_cons_of_neg hb, List.dropWhile_cons_of_neg hb]
      exact ⟨List.append_nil _, rfl⟩

theorem IsWord.dropWhile {word : List UInt8} (hword : IsWord word) (rest : List UInt8) :
    (word ++ rest).dropWhile isSpace = word ++ rest := by
  obtain ⟨hsome, hbytes⟩ := hword
  cases word with
  | nil => exact absurd rfl hsome
  | cons b tail =>
      rw [List.cons_append, List.dropWhile_cons_of_neg]
      rw [hbytes b List.mem_cons_self]
      exact Bool.false_ne_true

theorem readWord_word {word rest : List UInt8} (hword : IsWord word) (hrest : Ends rest) :
    readWord (word ++ rest) = some (word, rest) := by
  obtain ⟨htake, hdrop⟩ := @span_append (fun b => !isSpace b) word rest
    (fun b hb => by rw [hword.2 b hb]; rfl) (fun b hb => by rw [hrest b hb]; rfl)
  unfold readWord
  simp only [hword.dropWhile rest, htake, hdrop]
  cases hsame : word with
  | nil => exact absurd hsame hword.1
  | cons b tail => rfl

theorem readWord_space (rest : List UInt8) : readWord (32 :: rest) = readWord rest := rfl

theorem readInt64_space (rest : List UInt8) : readInt64 (32 :: rest) = readInt64 rest := rfl

theorem readSigned_decimal {n : Nat} {rest : List UInt8} (hrest : Ends rest) :
    readSigned (decimal n ++ rest) = some ((n : Int), rest) := by
  have hsigns : ∀ b ∈ decimal n, b ≠ 45 ∧ b ≠ 43 := by
    intro b hb
    have hdigit := isDigit_of_mem_decimal hb
    constructor
    · rintro rfl
      cases hdigit
    · rintro rfl
      cases hdigit
  have hend : ∀ b ∈ rest.head?, isDigit b = false := by
    intro b hb
    by_contra hdigit
    rw [Bool.not_eq_false] at hdigit
    cases (hrest b hb).symm.trans (isSpace_of_isDigit hdigit)
  obtain ⟨htake, hdrop⟩ := span_append (fun b hb => isDigit_of_mem_decimal hb) hend
  have hvalue := digitsValue_decimal n
  unfold readSigned
  cases hdecimal : decimal n with
  | nil => exact absurd hdecimal (decimal_ne_nil n)
  | cons b tail =>
      rw [hdecimal] at hsigns htake hdrop hvalue
      obtain ⟨hminus, hplus⟩ := hsigns b List.mem_cons_self
      rw [List.cons_append] at htake hdrop ⊢
      split
      next hsplit =>
        split at hsplit
        · rename_i hhead
          cases hhead
          exact absurd rfl hminus
        · rename_i hhead
          cases hhead
          exact absurd rfl hplus
        · cases hsplit
          simp only [htake, hdrop, hvalue]
          rfl

theorem readInt64_decimal {n : Nat} {rest : List UInt8} (hn : n < 2 ^ 63) (hrest : Ends rest) :
    readInt64 (decimal n ++ rest) = some ((n : Int), rest) := by
  unfold readInt64
  rw [(isWord_decimal n).dropWhile rest, readSigned_decimal hrest]
  exact if_pos ⟨by omega, by omega⟩

theorem readNat64_space (rest : List UInt8) : readNat64 (32 :: rest) = readNat64 rest := rfl

theorem readNat64_decimal {n : Nat} {rest : List UInt8} (hn : n < 2 ^ 64) (hrest : Ends rest) :
    readNat64 (decimal n ++ rest) = some (n, rest) := by
  have hvalue : ((n : Int) % 2 ^ 64).toNat = n := by omega
  unfold readNat64
  rw [(isWord_decimal n).dropWhile rest, readSigned_decimal hrest]
  simp only [hvalue]
  exact if_pos hn

theorem lines_line {line : List UInt8} (hline : 10 ∉ line) (rest : List UInt8) :
    lines (line ++ 10 :: rest) = line :: lines rest := by
  have hfront : ∀ front, linesFrom front (line ++ 10 :: rest) = (front.reverse ++ line) :: lines rest := by
    induction line with
    | nil =>
        intro front
        cases front <;> simp [linesFrom, lines]
    | cons b tail ih =>
        intro front
        obtain ⟨hb, htail⟩ := not_or.mp (mt List.mem_cons.mpr hline)
        cases front <;> simp [linesFrom, Ne.symm hb, ih htail]
  exact hfront []

theorem readLine_line {line : List UInt8} (hline : 10 ∉ line) (rest : List UInt8) :
    readLine (line ++ 10 :: rest) = some (line, rest) := by
  obtain ⟨htake, hdrop⟩ := @span_append (· != 10) line (10 :: rest)
    (fun b hb => by rw [bne_iff_ne]; rintro rfl; exact hline hb) (fun b hb => by cases hb; rfl)
  unfold readLine
  rw [if_neg (List.append_ne_nil_of_right_ne_nil _ (List.cons_ne_nil _ _)), htake, hdrop]
  rfl

end Text
