import FlowLint.Json.Token
import FlowLint.Proofs.Text.Decimal

namespace FlowLint.Json

open Text (digit digitChar ofDigits)

def Breaks (cs : List Char) : Prop := ∀ c, cs.head? = some c → c.isDigit = false

/-- The text does not go on with anything that belongs to a number. -/
def Stops (cs : List Char) : Prop :=
  ∀ c, cs.head? = some c → c.isDigit = false ∧ c ≠ '.' ∧ c ≠ 'e' ∧ c ≠ 'E'

theorem Stops.breaks {cs : List Char} (stops : Stops cs) : Breaks cs :=
  fun c first => (stops c first).1

theorem breaks_cons {c : Char} {cs : List Char} (other : c.isDigit = false) : Breaks (c :: cs) := by
  intro d first
  cases first
  exact other

theorem scanDigits_append {ds rest : List Char} (digits : ∀ c ∈ ds, c.isDigit = true)
    (nonempty : ds ≠ []) (breaks : Breaks rest) : scanDigits (ds ++ rest) = some (ds, rest) := by
  have taken : rest.takeWhile Char.isDigit = [] := by
    cases rest with
    | nil => rfl
    | cons c cs => rw [List.takeWhile_cons_of_neg (by simp [breaks c rfl])]
  have left : rest.dropWhile Char.isDigit = rest := by
    cases rest with
    | nil => rfl
    | cons c cs => rw [List.dropWhile_cons_of_neg (by simp [breaks c rfl])]
  rw [scanDigits, List.takeWhile_append_of_pos digits, List.dropWhile_append_of_pos digits, taken,
    left, List.append_nil, if_neg (by simpa using nonempty)]

theorem scanDigits_toDigits {n : Nat} {rest : List Char} (breaks : Breaks rest) :
    scanDigits (Nat.toDigits 10 n ++ rest) = some (Nat.toDigits 10 n, rest) :=
  scanDigits_append (fun _ => Text.isDigit_of_mem_toDigits) Nat.toDigits_ne_nil breaks

theorem scanWhole_toDigits {n : Nat} {rest : List Char} (breaks : Breaks rest) :
    scanWhole (Nat.toDigits 10 n ++ rest) = some (n, rest) := by
  rcases Nat.eq_zero_or_pos n with rfl | positive
  · rfl
  · obtain ⟨c, cs, digits, first⟩ := Text.toDigits_eq_cons positive
    have scanned := scanDigits_toDigits (n := n) breaks
    rw [digits] at scanned
    rw [digits, List.cons_append, scanWhole, ← List.cons_append, scanned, ← digits]
    · simp [Text.ofDigits_toDigits]
    · intro _ same
      exact first (List.cons.inj same).1

theorem scanFraction_render {fraction : List (Fin 10)} {rest : List Char} (breaks : Breaks rest)
    (other : rest.head? ≠ some '.') :
    scanFraction (renderFraction fraction ++ rest) = some (fraction, rest) := by
  cases fraction with
  | nil =>
    change scanFraction rest = _
    unfold scanFraction
    split
    · exact absurd rfl other
    · rfl
  | cons d ds =>
    have digits : ∀ c ∈ (d :: ds).map (fun (d : Fin 10) => digitChar d), c.isDigit = true := by
      intro c member
      obtain ⟨e, -, rfl⟩ := List.mem_map.1 member
      exact Text.isDigit_digitChar e
    change scanFraction ('.' :: ((d :: ds).map (fun (d : Fin 10) => digitChar d) ++ rest)) = _
    have same : (digit ∘ fun (d : Fin 10) => digitChar d) = id := funext Text.digit_digitChar
    rw [scanFraction, scanDigits_append digits (List.cons_ne_nil _ _) breaks]
    simp only [Option.map_some, List.map_map, same, List.map_id]

theorem scanExponent_render {exponent : Option Int} {rest : List Char} (stops : Stops rest) :
    scanExponent (renderExponent exponent ++ rest) = some (exponent, rest) := by
  cases exponent with
  | none =>
    cases rest with
    | nil => rfl
    | cons c cs =>
      obtain ⟨-, -, lower, upper⟩ := stops c rfl
      change scanExponent (c :: cs) = _
      unfold scanExponent
      simp [lower, upper]
  | some e =>
    have scanned := scanDigits_toDigits (n := e.natAbs) stops.breaks
    by_cases negative : e < 0
    · have size : -(e.natAbs : Int) = e := by omega
      rw [renderExponent, if_pos negative]
      change (scanDigits (Nat.toDigits 10 e.natAbs ++ rest)).map _ = _
      simp only [scanned, Option.map_some, Text.ofDigits_toDigits, size]
    · have size : (e.natAbs : Int) = e := by omega
      obtain ⟨c, cs, digits, isDigit⟩ := Text.toDigits_head e.natAbs
      have notPlus : c ≠ '+' := by
        intro same
        subst same
        cases isDigit
      have notMinus : c ≠ '-' := by
        intro same
        subst same
        cases isDigit
      have unsigned : scanExponent ('e' :: c :: (cs ++ rest)) =
          (scanDigits (c :: (cs ++ rest))).map fun r => (some (ofDigits r.1 : Int), r.2) := by
        unfold scanExponent
        simp [notPlus, notMinus]
      simp only [renderExponent, negative, if_false, List.cons_append,
        List.nil_append, digits, unsigned]
      rw [← List.cons_append, ← digits, scanned]
      simp only [Option.map_some, Text.ofDigits_toDigits, size]

theorem breaks_renderExponent {exponent : Option Int} {rest : List Char} (stops : Stops rest) :
    Breaks (renderExponent exponent ++ rest) := by
  cases exponent with
  | none => exact stops.breaks
  | some e => exact breaks_cons (by decide)

theorem scanUnsigned_render {n : Numeral} {rest : List Char} (stops : Stops rest) :
    scanUnsigned n.negative (Nat.toDigits 10 n.whole ++ (renderFraction n.fraction ++
      (renderExponent n.exponent ++ rest))) = some (n, rest) := by
  have noPoint : (renderExponent n.exponent ++ rest).head? ≠ some '.' := by
    cases n.exponent with
    | none => exact fun first => (stops '.' first).2.1 rfl
    | some e => simp [renderExponent]
  have afterWhole : Breaks (renderFraction n.fraction ++ (renderExponent n.exponent ++ rest)) := by
    cases n.fraction with
    | nil => exact breaks_renderExponent stops
    | cons d ds => exact breaks_cons (by decide)
  simp [scanUnsigned, scanWhole_toDigits afterWhole,
    scanFraction_render (breaks_renderExponent stops) noPoint, scanExponent_render stops]

theorem scanNumeral_render {n : Numeral} {rest : List Char} (stops : Stops rest) :
    scanNumeral (n.render ++ rest) = some (n, rest) := by
  have scanned := scanUnsigned_render (n := n) stops
  simp only [Numeral.render, List.append_assoc]
  cases sign : n.negative with
  | true =>
    rw [sign] at scanned
    exact scanned
  | false =>
    rw [sign] at scanned
    obtain ⟨c, cs, digits, isDigit⟩ := Text.toDigits_head n.whole
    rw [digits] at scanned ⊢
    rw [← scanned]
    unfold scanNumeral
    split
    · rename_i same
      obtain rfl := (List.cons.inj same).1
      cases isDigit
    · rfl

theorem hexUnit_control : ∀ n < 0x20,
    hexUnit '0' '0' (Nat.digitChar (n / 16)) (Nat.digitChar (n % 16)) = some n := by
  decide

theorem joinPieces_char (c : Char) (pieces : List Piece) :
    joinPieces (.char c :: pieces) = (joinPieces pieces).map (c :: ·) := rfl

theorem joinPieces_control {c : Char} (control : c.toNat < 0x20) (pieces : List Piece) :
    joinPieces (.unit c.toNat :: pieces) = (joinPieces pieces).map (c :: ·) := by
  have high : isHighHalf c.toNat = false := by
    simp [isHighHalf]
    omega
  have low : isLowHalf c.toNat = false := by
    simp [isLowHalf]
    omega
  conv => lhs; unfold joinPieces
  simp [high, low]

def putFirst (piece : Piece) (scanned : Option (List Piece × List Char)) :
    Option (List Piece × List Char) :=
  scanned.map fun (pieces, rest) => (piece :: pieces, rest)

theorem scanPieces_short {e c : Char} (short : unescape e = some c) (rest : List Char) :
    scanPieces ('\\' :: e :: rest) = putFirst (.char c) (scanPieces rest) := by
  have notUnit : e ≠ 'u' := by
    intro same
    subst same
    cases short
  rw [scanPieces, short, putFirst, Option.map_eq_bind]
  · rfl
  · intro _ _ _ _ _ same
    exact absurd same notUnit

theorem scanPieces_plain {c : Char} (noQuote : c ≠ '"') (noEscape : c ≠ '\\')
    (printable : ¬c.toNat < 0x20) (rest : List Char) :
    scanPieces (c :: rest) = putFirst (.char c) (scanPieces rest) := by
  conv => lhs; unfold scanPieces
  split
  case h_5 =>
    rename_i same
    obtain ⟨rfl, rfl⟩ := List.cons.inj same
    rw [if_neg printable, putFirst, Option.map_eq_bind]
    rfl
  all_goals simp_all

theorem scanPieces_control {c : Char} (control : c.toNat < 0x20) (rest : List Char) :
    scanPieces ('\\' :: 'u' :: '0' :: '0' :: Nat.digitChar (c.toNat / 16) ::
      Nat.digitChar (c.toNat % 16) :: rest) = putFirst (.unit c.toNat) (scanPieces rest) := by
  rw [scanPieces, hexUnit_control _ control, putFirst, Option.map_eq_bind]
  rfl

theorem scanPieces_escape (c : Char) (rest : List Char) :
    ∃ piece, scanPieces (escape c ++ rest) = putFirst piece (scanPieces rest) ∧
      ∀ pieces, joinPieces (piece :: pieces) = (joinPieces pieces).map (c :: ·) := by
  by_cases special : c = '"' ∨ c = '\\' ∨ c = '\x08' ∨ c = '\x0c' ∨ c = '\n' ∨ c = '\r' ∨ c = '\t'
  · refine ⟨.char c, ?_, joinPieces_char c⟩
    rcases special with rfl | rfl | rfl | rfl | rfl | rfl | rfl <;>
      exact scanPieces_short (by decide) rest
  · simp only [not_or] at special
    obtain ⟨noQuote, noEscape, h1, h2, h3, h4, h5⟩ := special
    simp only [escape, noQuote, noEscape, h1, h2, h3, h4, h5, if_false]
    by_cases control : c.toNat < 0x20
    · rw [if_pos control]
      exact ⟨.unit c.toNat, scanPieces_control control rest, joinPieces_control control⟩
    · rw [if_neg control]
      exact ⟨.char c, scanPieces_plain noQuote noEscape control rest, joinPieces_char c⟩

theorem scanPieces_text (cs rest : List Char) :
    ∃ pieces, scanPieces (cs.flatMap escape ++ '"' :: rest) = some (pieces, rest) ∧
      joinPieces pieces = some cs := by
  induction cs with
  | nil => exact ⟨[], by rw [List.flatMap_nil, List.nil_append, scanPieces], rfl⟩
  | cons c cs ih =>
    obtain ⟨pieces, scanned, joined⟩ := ih
    obtain ⟨piece, first, join⟩ := scanPieces_escape c (cs.flatMap escape ++ '"' :: rest)
    refine ⟨piece :: pieces, ?_, ?_⟩
    · rw [List.flatMap_cons, List.append_assoc, first, scanned]
      rfl
    · rw [join, joined]
      rfl

theorem scanText_render (t : Text) (rest : List Char) :
    ∃ body, renderText t ++ rest = '"' :: body ∧ scanText body = some (t, rest) := by
  cases t with
  | none => exact ⟨_, rfl, by simp [scanText, scanPieces, hexUnit, hexValue]; decide⟩
  | some s =>
    obtain ⟨pieces, scanned, joined⟩ := scanPieces_text s.toList rest
    refine ⟨s.toList.flatMap escape ++ '"' :: rest, by simp [renderText], ?_⟩
    simp [scanText, scanned, joined]

/-- Whether the token has an end of its own, or only what comes next ends it. -/
def Token.Ends : Token → List Char → Prop
  | .scalar (.number _), rest => Stops rest
  | _, _ => True

theorem nextToken_number {c : Char} (number : c = '-' ∨ c.isDigit = true) (cs : List Char) :
    nextToken (c :: cs) =
      (scanNumeral (c :: cs)).map fun (n, rest) => (.scalar (.number n), rest) := by
  unfold nextToken
  split
  case h_11 => rfl
  all_goals
    rename_i same
    obtain rfl := (List.cons.inj same).1
    rcases number with number | number <;> cases number

theorem Numeral.render_head (n : Numeral) :
    ∃ c cs, n.render = c :: cs ∧ (c = '-' ∨ c.isDigit = true) := by
  obtain ⟨c, cs, digits, isDigit⟩ := Text.toDigits_head n.whole
  cases sign : n.negative with
  | true => exact ⟨'-', _, by rw [render, sign]; rfl, .inl rfl⟩
  | false => exact ⟨c, _, by rw [render, sign, digits]; rfl, .inr isDigit⟩

theorem nextToken_render {t : Token} {rest : List Char} (ends : t.Ends rest) :
    nextToken (t.render ++ rest) = some (t, rest) := by
  cases t with
  | scalar s =>
    cases s with
    | null => rfl
    | bool b => cases b <;> rfl
    | number n =>
      obtain ⟨c, cs, spelled, number⟩ := n.render_head
      have scanned := scanNumeral_render (n := n) ends
      change nextToken (n.render ++ rest) = _
      rw [spelled, List.cons_append] at scanned ⊢
      rw [nextToken_number number, scanned]
      rfl
    | string text =>
      obtain ⟨body, spelled, scanned⟩ := scanText_render text rest
      change nextToken (renderText text ++ rest) = _
      rw [spelled]
      change (scanText body).map _ = _
      rw [scanned]
      rfl
  | _ => rfl

theorem isBlank_of_isDigit {c : Char} (isDigit : c.isDigit = true) : isBlank c = false := by
  cases blank : isBlank c with
  | false => rfl
  | true =>
    simp only [isBlank, Bool.or_eq_true, decide_eq_true_eq] at blank
    rcases blank with ((rfl | rfl) | rfl) | rfl <;> cases isDigit

theorem Token.render_head (t : Token) : ∃ c cs, t.render = c :: cs ∧ isBlank c = false := by
  cases t with
  | scalar s =>
    cases s with
    | null => exact ⟨_, _, rfl, rfl⟩
    | bool b => cases b <;> exact ⟨_, _, rfl, rfl⟩
    | number n =>
      obtain ⟨c, cs, spelled, number⟩ := n.render_head
      refine ⟨c, cs, spelled, ?_⟩
      rcases number with rfl | isDigit
      · rfl
      · exact isBlank_of_isDigit isDigit
    | string text => cases text <;> exact ⟨_, _, rfl, rfl⟩
  | _ => exact ⟨_, _, rfl, rfl⟩

theorem tokenize_nil : tokenize [] = some [] := by
  rw [tokenize]
  rfl

theorem tokenize_render {t : Token} {rest : List Char} (ends : t.Ends rest) :
    tokenize (t.render ++ rest) = (tokenize rest).map (t :: ·) := by
  obtain ⟨c, cs, spelled, visible⟩ := t.render_head
  have found := nextToken_render ends
  rw [spelled, List.cons_append] at found ⊢
  have unblank : (c :: (cs ++ rest)).dropWhile isBlank = c :: (cs ++ rest) :=
    List.dropWhile_cons_of_neg (by simp [visible])
  rw [tokenize]
  split
  · rename_i nothing
    rw [unblank] at nothing
    cases nothing
  · rename_i d more same
    rw [unblank] at same
    obtain ⟨rfl, rfl⟩ := List.cons.inj same
    split
    · rename_i nothing
      rw [found] at nothing
      cases nothing
    · rename_i u after same
      rw [found] at same
      obtain ⟨rfl, rfl⟩ := Prod.mk.inj (Option.some.inj same)
      rfl

end FlowLint.Json
