import FlowLint.Printf

/-!
The grammar of directives, part by part. All parts but the percent sign and the conversion letter
may be left out, and some of them share characters: a minus may be a sign or stand for the
alignment, a zero may be padding or a digit of the width. However the parts are told apart, a
percent sign starts at most one directive, and reading from left to right finds it.
-/

namespace FlowLint.Printf

/-- A run of digits of any script; it may be empty. -/
structure Digits where
  chars : List Char
  decimal : ∀ c ∈ chars, Text.isDecimalDigit c = true

structure Numeral extends Digits where
  nonempty : chars ≠ []

inductive Sign where
  | plus
  | minus

inductive Padding where
  | space
  | zero
  | custom (c : Char) (sameLine : c ≠ '\n')

/-- The parts of a specifier behind the alignment. -/
structure Ending where
  width : Digits
  precision : Option Numeral
  conversion : Char
  known : isConversion conversion = true

/-- The parts of a specifier behind the position. -/
structure Body extends Ending where
  sign : Option Sign
  padding : Option Padding
  leftAligned : Bool

structure Specifier extends Body where
  position : Option Numeral

/-- What a directive is spelled as. -/
inductive Spelling where
  | escaped
  | specifier (s : Specifier)

def Sign.text : Sign → List Char
  | plus => ['+']
  | minus => ['-']

def Padding.text : Padding → List Char
  | space => [' ']
  | zero => ['0']
  | custom c _ => ['\'', c]

def alignmentText (leftAligned : Bool) : List Char := if leftAligned then ['-'] else []

def precisionText : Option Numeral → List Char
  | none => []
  | some n => '.' :: n.chars

def positionText : Option Numeral → List Char
  | none => []
  | some n => n.chars ++ ['$']

def Ending.text (e : Ending) : List Char :=
  e.width.chars ++ precisionText e.precision ++ [e.conversion]

def Body.text (b : Body) : List Char :=
  b.sign.elim [] Sign.text ++ b.padding.elim [] Padding.text ++ alignmentText b.leftAligned ++
    b.toEnding.text

def Specifier.text (s : Specifier) : List Char :=
  '%' :: (positionText s.position ++ s.toBody.text)

theorem Ending.text_append (e : Ending) (rest : List Char) :
    e.text ++ rest = e.width.chars ++ (precisionText e.precision ++ e.conversion :: rest) := by
  simp only [text, List.append_assoc, List.singleton_append]

theorem Body.text_append (b : Body) (rest : List Char) :
    b.text ++ rest = b.sign.elim [] Sign.text ++ (b.padding.elim [] Padding.text ++
      (alignmentText b.leftAligned ++ (b.toEnding.text ++ rest))) := by
  simp only [text, List.append_assoc]

def Specifier.directive (s : Specifier) : Directive :=
  s.position.elim .sequential fun n => .positional n.chars

namespace Spelling

def text : Spelling → List Char
  | escaped => ['%', '%']
  | specifier s => s.text

/-- What is spelled: of a specifier, only the position matters. -/
def directive : Spelling → Directive
  | escaped => .escaped
  | specifier s => s.directive

theorem text_eq_cons (a : Spelling) : ∃ cs, a.text = '%' :: cs := by
  cases a with
  | escaped => exact ⟨_, rfl⟩
  | specifier s => exact ⟨_, rfl⟩

end Spelling

theorem ne_of_isDecimalDigit {c d : Char} (digit : Text.isDecimalDigit c = true)
    (other : Text.isDecimalDigit d = false) : c ≠ d := by
  intro same
  subst same
  exact absurd digit (by simp [other])

theorem isDecimalDigit_of_isConversion {c : Char} (known : isConversion c = true) :
    Text.isDecimalDigit c = false := by
  have none : "bcdeEufFgGosxX".toList.any Text.isDecimalDigit = false := by decide
  exact Bool.eq_false_iff.2 (List.any_eq_false.1 none c (List.contains_iff_mem.1 known))

theorem ne_of_isConversion {c d : Char} (known : isConversion c = true)
    (other : isConversion d = false) : c ≠ d := by
  intro same
  subst same
  exact absurd known (by simp [other])

/-- The first character of the parts behind the alignment: a digit, the point of the precision or
the conversion letter. -/
def OpensEnding (c : Char) : Prop :=
  Text.isDecimalDigit c = true ∨ c = '.' ∨ isConversion c = true

theorem Ending.text_eq_cons (e : Ending) : ∃ c cs, e.text = c :: cs ∧ OpensEnding c := by
  unfold text
  cases width : e.width.chars with
  | cons d ds =>
    refine ⟨d, _, rfl, .inl (e.width.decimal d ?_)⟩
    rw [width]
    exact List.mem_cons_self
  | nil =>
    cases e.precision with
    | none => exact ⟨e.conversion, [], rfl, .inr (.inr e.known)⟩
    | some n => exact ⟨'.', _, rfl, .inr (.inl rfl)⟩

theorem OpensEnding.ne {c d : Char} (opens : OpensEnding c)
    (digit : Text.isDecimalDigit d = false) (point : d ≠ '.')
    (conversion : isConversion d = false) : c ≠ d := by
  rcases opens with isDigit | rfl | known
  · exact ne_of_isDecimalDigit isDigit digit
  · exact point.symm
  · exact ne_of_isConversion known conversion

theorem takeWhile_digits (ds : Digits) {c : Char} {cs : List Char}
    (nonDigit : Text.isDecimalDigit c = false) :
    (ds.chars ++ c :: cs).takeWhile Text.isDecimalDigit = ds.chars := by
  rw [List.takeWhile_append_of_pos ds.decimal, List.takeWhile_cons_of_neg (by simp [nonDigit]),
    List.append_nil]

theorem dropWhile_digits (ds : Digits) {c : Char} {cs : List Char}
    (nonDigit : Text.isDecimalDigit c = false) :
    (ds.chars ++ c :: cs).dropWhile Text.isDecimalDigit = c :: cs := by
  rw [List.dropWhile_append_of_pos ds.decimal, List.dropWhile_cons_of_neg (by simp [nonDigit])]

def Digits.ofText (cs : List Char) : Digits :=
  ⟨cs.takeWhile Text.isDecimalDigit, List.all_eq_true.1 List.all_takeWhile⟩

def Numeral.ofText (cs : List Char)
    (nonempty : ¬ (cs.takeWhile Text.isDecimalDigit).isEmpty = true) : Numeral :=
  ⟨.ofText cs, fun none => nonempty (List.isEmpty_iff.2 none)⟩

theorem Digits.ofText_append (cs : List Char) :
    (Digits.ofText cs).chars ++ cs.dropWhile Text.isDecimalDigit = cs :=
  List.takeWhile_append_dropWhile

def afterAlignment? (cs : List Char) : Option (List Char) :=
  (skipPrecision? (cs.dropWhile Text.isDecimalDigit)).bind skipConversion?

theorem skipConversion?_eq_some_iff {cs rest : List Char} :
    skipConversion? cs = some rest ↔ ∃ c, isConversion c = true ∧ cs = c :: rest := by
  cases cs with
  | nil => simp [skipConversion?]
  | cons c tail =>
    rw [skipConversion?]
    constructor
    · intro found
      split at found
      · rename_i known
        exact ⟨c, known, by rw [Option.some.inj found]⟩
      · simp at found
    · rintro ⟨d, known, same⟩
      obtain ⟨rfl, rfl⟩ := List.cons.inj same
      rw [if_pos known]

theorem skipPrecision?_of_conversion {c : Char} {cs : List Char} (known : isConversion c = true) :
    skipPrecision? (c :: cs) = some (c :: cs) := by
  rw [skipPrecision?]
  intro tail same
  exact ne_of_isConversion known (by decide) (List.cons.inj same).1

theorem skipPrecision?_point (n : Numeral) {c : Char} {cs : List Char}
    (nonDigit : Text.isDecimalDigit c = false) :
    skipPrecision? ('.' :: (n.chars ++ c :: cs)) = some (c :: cs) := by
  rw [skipPrecision?, takeWhile_digits n.toDigits nonDigit, dropWhile_digits n.toDigits nonDigit,
    if_neg (by simpa using n.nonempty)]

theorem precision_of_skipPrecision? {cs rest : List Char} (found : skipPrecision? cs = some rest) :
    ∃ p : Option Numeral, cs = precisionText p ++ rest := by
  unfold skipPrecision? at found
  split at found
  · rename_i tail
    split at found
    · simp at found
    · rename_i nonempty
      refine ⟨some (.ofText tail nonempty), ?_⟩
      rw [← Option.some.inj found]
      exact congrArg ('.' :: ·) (Digits.ofText_append tail).symm
  · exact ⟨none, Option.some.inj found⟩

theorem afterAlignment?_text (e : Ending) (rest : List Char) :
    afterAlignment? (e.text ++ rest) = some rest := by
  have converted : skipConversion? (e.conversion :: rest) = some rest :=
    skipConversion?_eq_some_iff.2 ⟨_, e.known, rfl⟩
  have nonDigit := isDecimalDigit_of_isConversion e.known
  rw [afterAlignment?, e.text_append]
  cases e.precision with
  | none =>
    rw [precisionText, List.nil_append, dropWhile_digits e.width nonDigit,
      skipPrecision?_of_conversion e.known, Option.bind_some, converted]
  | some n =>
    rw [precisionText, List.cons_append, dropWhile_digits e.width (by decide),
      skipPrecision?_point n nonDigit, Option.bind_some, converted]

theorem afterAlignment?_eq_some_iff {cs rest : List Char} :
    afterAlignment? cs = some rest ↔ ∃ e : Ending, cs = e.text ++ rest := by
  constructor
  · intro found
    obtain ⟨precise, foundPrecision, foundConversion⟩ := Option.bind_eq_some_iff.1 found
    obtain ⟨c, known, rfl⟩ := skipConversion?_eq_some_iff.1 foundConversion
    obtain ⟨p, behindWidth⟩ := precision_of_skipPrecision? foundPrecision
    refine ⟨⟨.ofText cs, p, c, known⟩, ?_⟩
    rw [Ending.text_append, ← behindWidth, Digits.ofText_append]
  · rintro ⟨e, rfl⟩
    exact afterAlignment?_text e rest

def afterSign? (cs : List Char) : Option (List Char) :=
  (skipPadding? cs).bind fun padded => afterAlignment? (skipAlignment padded)

theorem afterConversion?_eq (cs : List Char) : afterConversion? cs = afterSign? (skipSign cs) :=
  rfl

theorem skipAlignment_text (leftAligned : Bool) (e : Ending) (rest : List Char) :
    skipAlignment (alignmentText leftAligned ++ (e.text ++ rest)) = e.text ++ rest := by
  cases leftAligned with
  | true => rfl
  | false =>
    obtain ⟨c, cs, text, opens⟩ := e.text_eq_cons
    rw [text]
    refine skipAlignment.eq_2 _ fun tail same => ?_
    exact opens.ne (by decide) (by decide) (by decide) (List.cons.inj same).1

theorem skipPadding?_of_ne {c : Char} {cs : List Char} (space : c ≠ ' ') (zero : c ≠ '0')
    (apostrophe : c ≠ '\'') : skipPadding? (c :: cs) = some (c :: cs) := by
  unfold skipPadding?
  split <;> simp_all

/-- A zero in front of an ending belongs to its width. -/
theorem Ending.exists_tail_of_zero {e : Ending} {cs rest : List Char}
    (text : e.text ++ rest = '0' :: cs) : ∃ f : Ending, cs = f.text ++ rest := by
  rw [e.text_append] at text
  cases width : e.width.chars with
  | cons d ds =>
    rw [width] at text
    refine ⟨⟨⟨ds, fun c member => e.width.decimal c ?_⟩, e.precision, e.conversion, e.known⟩, ?_⟩
    · rw [width]
      exact List.mem_cons_of_mem _ member
    · rw [← (List.cons.inj text).2, Ending.text_append]
      rfl
  | nil =>
    rw [width] at text
    cases precision : e.precision with
    | none =>
      rw [precision] at text
      exact absurd (List.cons.inj text).1 (ne_of_isConversion e.known (by decide))
    | some n =>
      rw [precision] at text
      exact absurd (List.cons.inj text).1 (by decide)

theorem afterSign?_ending (e : Ending) (rest : List Char) :
    afterSign? (e.text ++ rest) = some rest := by
  have unaligned (f : Ending) : afterAlignment? (skipAlignment (f.text ++ rest)) = some rest :=
    (congrArg afterAlignment? (skipAlignment_text false f rest)).trans (afterAlignment?_text f rest)
  obtain ⟨c, cs, text, opens⟩ := e.text_eq_cons
  by_cases zero : c = '0'
  · have opened : e.text ++ rest = '0' :: (cs ++ rest) := by rw [text, zero, List.cons_append]
    obtain ⟨f, remaining⟩ := Ending.exists_tail_of_zero opened
    rw [opened, remaining]
    exact unaligned f
  · have unpadded : skipPadding? (e.text ++ rest) = some (e.text ++ rest) := by
      rw [text]
      exact skipPadding?_of_ne (opens.ne (by decide) (by decide) (by decide)) zero
        (opens.ne (by decide) (by decide) (by decide))
    rw [afterSign?, unpadded]
    exact unaligned e

theorem afterSign?_text (padding : Option Padding) (leftAligned : Bool) (e : Ending)
    (rest : List Char) :
    afterSign? (padding.elim [] Padding.text ++ (alignmentText leftAligned ++ (e.text ++ rest))) =
      some rest := by
  have aligned : afterAlignment? (skipAlignment (alignmentText leftAligned ++ (e.text ++ rest))) =
      some rest := by
    rw [skipAlignment_text, afterAlignment?_text]
  match padding, leftAligned with
  | some .space, _ => exact aligned
  | some .zero, _ => exact aligned
  | some (.custom c sameLine), _ =>
    change (if c = '\n' then none else some _).bind _ = _
    rw [if_neg sameLine]
    exact aligned
  | none, true => exact aligned
  | none, false => exact afterSign?_ending e rest

theorem skipSign_of_opensEnding {c : Char} {cs : List Char} (opens : OpensEnding c) :
    skipSign (c :: cs) = c :: cs := by
  have plus : c ≠ '+' := opens.ne (by decide) (by decide) (by decide)
  have minus : c ≠ '-' := opens.ne (by decide) (by decide) (by decide)
  unfold skipSign
  split <;> simp_all

theorem afterConversion?_parts (sign : Option Sign) (padding : Option Padding)
    (leftAligned : Bool) (e : Ending) (rest : List Char) :
    afterConversion? (sign.elim [] Sign.text ++ (padding.elim [] Padding.text ++
      (alignmentText leftAligned ++ (e.text ++ rest)))) = some rest := by
  have unsigned := afterSign?_text padding leftAligned e rest
  rw [afterConversion?_eq]
  match sign, padding, leftAligned with
  | some .plus, _, _ => exact unsigned
  | some .minus, _, _ => exact unsigned
  | none, some .space, _ => exact unsigned
  | none, some .zero, _ => exact unsigned
  | none, some (.custom _ _), _ => exact unsigned
  | none, none, true => exact afterSign?_text none false e rest
  | none, none, false =>
    obtain ⟨c, cs, text, opens⟩ := e.text_eq_cons
    change afterSign? (e.text ++ rest) = _ at unsigned
    change afterSign? (skipSign (e.text ++ rest)) = _
    rw [text, List.cons_append] at unsigned ⊢
    rw [skipSign_of_opensEnding opens, unsigned]

theorem sign_of_skipSign (cs : List Char) :
    ∃ sign : Option Sign, cs = sign.elim [] Sign.text ++ skipSign cs := by
  unfold skipSign
  split
  · exact ⟨some .plus, rfl⟩
  · exact ⟨some .minus, rfl⟩
  · exact ⟨none, rfl⟩

theorem padding_of_skipPadding? {cs rest : List Char} (found : skipPadding? cs = some rest) :
    ∃ padding : Option Padding, cs = padding.elim [] Padding.text ++ rest := by
  unfold skipPadding? at found
  split at found
  · exact ⟨some .space, congrArg (' ' :: ·) (Option.some.inj found)⟩
  · exact ⟨some .zero, congrArg ('0' :: ·) (Option.some.inj found)⟩
  · rename_i c tail
    split at found
    · simp at found
    · rename_i sameLine
      exact ⟨some (.custom c sameLine), congrArg ('\'' :: c :: ·) (Option.some.inj found)⟩
  · simp at found
  · exact ⟨none, Option.some.inj found⟩

theorem alignment_of_skipAlignment (cs : List Char) :
    ∃ leftAligned, cs = alignmentText leftAligned ++ skipAlignment cs := by
  unfold skipAlignment
  split
  · exact ⟨true, rfl⟩
  · exact ⟨false, rfl⟩

theorem afterConversion?_eq_some_iff {cs rest : List Char} :
    afterConversion? cs = some rest ↔ ∃ b : Body, cs = b.text ++ rest := by
  constructor
  · intro found
    rw [afterConversion?_eq] at found
    obtain ⟨padded, foundPadding, foundEnding⟩ := Option.bind_eq_some_iff.1 found
    obtain ⟨e, behindAlignment⟩ := afterAlignment?_eq_some_iff.1 foundEnding
    obtain ⟨leftAligned, behindPadding⟩ := alignment_of_skipAlignment padded
    obtain ⟨padding, behindSign⟩ := padding_of_skipPadding? foundPadding
    obtain ⟨sign, whole⟩ := sign_of_skipSign cs
    refine ⟨⟨e, sign, padding, leftAligned⟩, ?_⟩
    rw [Body.text_append, whole, behindSign, behindPadding, behindAlignment]
  · rintro ⟨b, rfl⟩
    rw [b.text_append]
    exact afterConversion?_parts b.sign b.padding b.leftAligned b.toEnding rest

theorem position?_eq_some_iff {cs digits rest : List Char} :
    position? cs = some (digits, rest) ↔
      ∃ n : Numeral, n.chars = digits ∧ cs = n.chars ++ '$' :: rest := by
  constructor
  · intro found
    unfold position? at found
    split at found
    · rename_i tail behind
      split at found
      · simp at found
      · rename_i nonempty
        obtain ⟨rfl, rfl⟩ := Prod.mk.inj (Option.some.inj found)
        refine ⟨.ofText cs nonempty, rfl, ?_⟩
        rw [← behind]
        exact (Digits.ofText_append cs).symm
    · simp at found
  · rintro ⟨n, rfl, rfl⟩
    rw [position?, dropWhile_digits n.toDigits (by decide)]
    simp only
    rw [takeWhile_digits n.toDigits (by decide), if_neg (by simpa using n.nonempty)]

def bodyMarks : List Char := "+- '.".toList ++ "bcdeEufFgGosxX".toList

/-- The character behind the first digits shows that a body stands there. -/
def Marked (cs : List Char) : Prop :=
  ∃ c ∈ bodyMarks, (cs.dropWhile Text.isDecimalDigit).head? = some c

theorem mem_bodyMarks_of_isConversion {c : Char} (known : isConversion c = true) :
    c ∈ bodyMarks :=
  List.mem_append_right _ (List.contains_iff_mem.1 known)

theorem Marked.of_break {c : Char} (cs : List Char) (nonDigit : Text.isDecimalDigit c = false)
    (mark : c ∈ bodyMarks) : Marked (c :: cs) := by
  refine ⟨c, mark, ?_⟩
  rw [List.dropWhile_cons_of_neg (by simp [nonDigit])]
  rfl

theorem Marked.of_digit {c : Char} {cs : List Char} (digit : Text.isDecimalDigit c = true)
    (marked : Marked cs) : Marked (c :: cs) := by
  rw [Marked, List.dropWhile_cons_of_pos digit]
  exact marked

theorem Ending.marked (e : Ending) (rest : List Char) : Marked (e.text ++ rest) := by
  rw [Marked, e.text_append]
  cases e.precision with
  | none =>
    refine ⟨e.conversion, mem_bodyMarks_of_isConversion e.known, ?_⟩
    rw [precisionText, List.nil_append,
      dropWhile_digits e.width (isDecimalDigit_of_isConversion e.known)]
    rfl
  | some n =>
    refine ⟨'.', by decide, ?_⟩
    rw [precisionText, List.cons_append, dropWhile_digits e.width (by decide)]
    rfl

theorem Body.marked (b : Body) (rest : List Char) : Marked (b.text ++ rest) := by
  have ending := b.toEnding.marked rest
  have aligned : Marked (alignmentText b.leftAligned ++ (b.toEnding.text ++ rest)) := by
    cases b.leftAligned with
    | true => exact .of_break _ (by decide) (by decide)
    | false => exact ending
  rw [b.text_append]
  match b.sign, b.padding with
  | some .plus, _ => exact .of_break _ (by decide) (by decide)
  | some .minus, _ => exact .of_break _ (by decide) (by decide)
  | none, some .space => exact .of_break _ (by decide) (by decide)
  | none, some .zero => exact .of_digit (by decide) aligned
  | none, some (.custom _ _) => exact .of_break _ (by decide) (by decide)
  | none, none => exact aligned

theorem Marked.position? {cs : List Char} (marked : Marked cs) : position? cs = none := by
  obtain ⟨c, mark, behind⟩ := marked
  unfold Printf.position?
  split
  · rename_i rest dropped
    rw [dropped] at behind
    rw [← Option.some.inj behind] at mark
    exact absurd mark (by decide)
  · rfl

theorem Marked.ne_percent {cs : List Char} (marked : Marked cs) (rest : List Char) :
    cs ≠ '%' :: rest := by
  intro same
  subst same
  obtain ⟨c, mark, behind⟩ := marked
  rw [List.dropWhile_cons_of_neg (by decide)] at behind
  rw [← Option.some.inj behind] at mark
  exact absurd mark (by decide)

theorem position?_percent (cs : List Char) : position? ('%' :: cs) = none := by
  rw [position?, List.dropWhile_cons_of_neg (by decide)]
  rfl

theorem directive?_of_positioned {cs digits after : List Char}
    (positioned : position? cs = some (digits, after)) :
    directive? cs = (afterConversion? after).map fun rest => (.positional digits, rest) := by
  have other (rest : List Char) : cs ≠ '%' :: rest := by
    intro same
    rw [same, position?_percent] at positioned
    simp at positioned
  rw [directive?.eq_2 _ other, positioned]

theorem directive?_of_unpositioned {cs : List Char} (other : ∀ rest, cs ≠ '%' :: rest)
    (unpositioned : position? cs = none) :
    directive? cs = (afterConversion? cs).map fun rest => (.sequential, rest) := by
  rw [directive?.eq_2 _ other, unpositioned]

theorem directive?_specifier (s : Specifier) {cs rest : List Char}
    (spelled : '%' :: cs = s.text ++ rest) : directive? cs = some (s.directive, rest) := by
  have behindPercent : cs = positionText s.position ++ (s.toBody.text ++ rest) := by
    rw [← List.append_assoc]
    exact (List.cons.inj spelled).2
  -- the parts of the body may be told apart in another way, with the same end
  have converted : afterConversion? (s.toBody.text ++ rest) = some rest :=
    afterConversion?_eq_some_iff.2 ⟨s.toBody, rfl⟩
  have marked := s.toBody.marked rest
  rw [Specifier.directive]
  cases position : s.position with
  | none =>
    rw [position, positionText, List.nil_append] at behindPercent
    rw [behindPercent, directive?_of_unpositioned marked.ne_percent marked.position?, converted]
    rfl
  | some n =>
    rw [position, positionText, List.append_assoc, List.singleton_append] at behindPercent
    rw [directive?_of_positioned (position?_eq_some_iff.2 ⟨n, rfl, behindPercent⟩), converted]
    rfl

theorem exists_spelling {cs rest : List Char} {d : Directive}
    (found : directive? cs = some (d, rest)) :
    ∃ a : Spelling, a.directive = d ∧ '%' :: cs = a.text ++ rest := by
  by_cases escaped : ∃ tail, cs = '%' :: tail
  · obtain ⟨tail, rfl⟩ := escaped
    obtain ⟨rfl, rfl⟩ := Prod.mk.inj (Option.some.inj found)
    exact ⟨.escaped, rfl, rfl⟩
  rcases positioned : position? cs with _ | ⟨digits, after⟩
  · rw [directive?_of_unpositioned (not_exists.1 escaped) positioned] at found
    obtain ⟨tail, converted, same⟩ := Option.map_eq_some_iff.1 found
    obtain ⟨rfl, rfl⟩ := Prod.mk.inj same
    obtain ⟨b, rfl⟩ := afterConversion?_eq_some_iff.1 converted
    exact ⟨.specifier ⟨b, none⟩, rfl, rfl⟩
  · rw [directive?_of_positioned positioned] at found
    obtain ⟨tail, converted, same⟩ := Option.map_eq_some_iff.1 found
    obtain ⟨rfl, rfl⟩ := Prod.mk.inj same
    obtain ⟨n, rfl, rfl⟩ := position?_eq_some_iff.1 positioned
    obtain ⟨b, rfl⟩ := afterConversion?_eq_some_iff.1 converted
    refine ⟨.specifier ⟨b, some n⟩, rfl, ?_⟩
    simp [Spelling.text, Specifier.text, positionText]

/-- The directive whose percent sign stands just before a text is the one that is spelled there,
however its parts are told apart. -/
theorem directive?_eq_some_iff {cs rest : List Char} {d : Directive} :
    directive? cs = some (d, rest) ↔
      ∃ a : Spelling, a.directive = d ∧ '%' :: cs = a.text ++ rest := by
  constructor
  · exact exists_spelling
  · rintro ⟨a, rfl, spelled⟩
    cases a with
    | escaped =>
      rw [(List.cons.inj spelled).2]
      rfl
    | specifier s => exact directive?_specifier s spelled

end FlowLint.Printf
