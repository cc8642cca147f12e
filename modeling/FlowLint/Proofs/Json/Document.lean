import FlowLint.Json.Document
import FlowLint.Proofs.Json.Token

/-!
Written text reads back as the value it was written for, whatever that is. First the tokens are
found again, then the value is put together from them.
-/

namespace FlowLint.Json

def Found (ts : List Token) (rest : List Char) : Prop :=
  tokenize (ts.flatMap Token.render ++ rest) = (tokenize rest).map (ts ++ ·)

theorem found_nil (rest : List Char) : Found [] rest := by
  simp [Found]

theorem Found.cons {t : Token} {ts : List Token} {rest : List Char}
    (ends : t.Ends (ts.flatMap Token.render ++ rest)) (found : Found ts rest) :
    Found (t :: ts) rest := by
  rw [Found, List.flatMap_cons, List.append_assoc, tokenize_render ends, found]
  simp [Function.comp_def]

theorem Found.append {first second : List Token} {rest : List Char}
    (front : Found first (second.flatMap Token.render ++ rest)) (back : Found second rest) :
    Found (first ++ second) rest := by
  rw [Found, List.flatMap_append, List.append_assoc, front, back]
  simp [Function.comp_def]

theorem stops_of_mem {c : Char} (cs : List Char) (mark : c ∈ [',', ']', '}']) :
    Stops (c :: cs) := by
  intro d first
  cases first
  simp only [List.mem_cons, List.not_mem_nil, or_false] at mark
  rcases mark with rfl | rfl | rfl <;> decide

theorem found_closeArray (rest : List Char) : Found [.closeArray] rest :=
  .cons trivial (found_nil rest)

theorem found_closeObject (rest : List Char) : Found [.closeObject] rest :=
  .cons trivial (found_nil rest)

mutual

theorem found_tokens (j : Json) {rest : List Char} (stops : Stops rest) : Found j.tokens rest := by
  cases j with
  | scalar s =>
    refine .cons ?_ (found_nil rest)
    cases s with
    | number n => exact stops
    | _ => trivial
  | array items => exact .cons trivial (found_itemTokens items rest)
  | object members => exact .cons trivial (found_memberTokens members rest)

theorem found_itemTokens (items : List Json) (rest : List Char) :
    Found (itemTokens items) rest := by
  match items with
  | [] => exact found_closeArray rest
  | [item] =>
    exact (found_tokens item (stops_of_mem _ (by decide))).append (found_closeArray rest)
  | item :: next :: more =>
    exact (found_tokens item (stops_of_mem _ (by decide))).append
      (.cons trivial (found_itemTokens (next :: more) rest))

theorem found_memberTokens (members : List (Text × Json)) (rest : List Char) :
    Found (memberTokens members) rest := by
  match members with
  | [] => exact found_closeObject rest
  | [(key, value)] =>
    refine .cons trivial (.cons trivial ?_)
    exact (found_tokens value (stops_of_mem _ (by decide))).append (found_closeObject rest)
  | (key, value) :: next :: more =>
    refine .cons trivial (.cons trivial ?_)
    exact (found_tokens value (stops_of_mem _ (by decide))).append
      (.cons trivial (found_memberTokens (next :: more) rest))

end

theorem tokenize_tokens (j : Json) :
    tokenize (j.tokens.flatMap Token.render) = some j.tokens := by
  have found : Found j.tokens [] := found_tokens j fun _ first => nomatch first
  rw [Found, List.append_nil, tokenize_nil] at found
  simpa using found

def Leads (first : Reading) (ts : List Token) (last : Reading) : Prop :=
  ts.foldlM Reading.step first = some last

theorem leads_nil (r : Reading) : Leads r [] r := rfl

theorem Leads.cons {first next last : Reading} {t : Token} {ts : List Token}
    (step : first.step t = some next) (leads : Leads next ts last) :
    Leads first (t :: ts) last := by
  rw [Leads, List.foldlM_cons, step]
  exact leads

theorem Leads.append {first middle last : Reading} {front back : List Token}
    (leads : Leads first front middle) (on : Leads middle back last) :
    Leads first (front ++ back) last := by
  rw [Leads, List.foldlM_append, leads]
  exact on

theorem tokens_head (j : Json) : ∃ t ts, j.tokens = t :: ts ∧ t ≠ .closeArray := by
  cases j <;> exact ⟨_, _, rfl, nofun⟩

theorem Leads.afterBracket {outer : List Frame} {item : Json} {ts : List Token} {last : Reading}
    (leads : Leads (.needValue (.items [] :: outer)) (item.tokens ++ ts) last) :
    Leads (.afterBracket outer) (item.tokens ++ ts) last := by
  obtain ⟨t, more, tokens, goesOn⟩ := tokens_head item
  rw [tokens] at leads ⊢
  have same : Reading.step (.afterBracket outer) t =
      Reading.step (.needValue (.items [] :: outer)) t := by
    cases t with
    | closeArray => exact absurd rfl goesOn
    | _ => rfl
  rw [Leads, List.cons_append, List.foldlM_cons] at leads ⊢
  rw [same]
  exact leads

-- along the mutual recursion of the tokens, for any containers that are still open around them
mutual

theorem leads_tokens (j : Json) (outer : List Frame) :
    Leads (.needValue outer) j.tokens (.complete outer j) := by
  match j with
  | .scalar s => exact .cons rfl (leads_nil _)
  | .array [] => exact .cons rfl (.cons rfl (leads_nil _))
  | .array [item] => exact .cons rfl (.afterBracket (leads_itemTokens [item] [] outer nofun))
  | .array (item :: next :: more) =>
    exact .cons rfl (.afterBracket (leads_itemTokens (item :: next :: more) [] outer nofun))
  | .object [] => exact .cons rfl (.cons rfl (leads_nil _))
  | .object [(key, value)] =>
    exact .cons rfl (leads_memberTokens [(key, value)] [] outer nofun)
  | .object ((key, value) :: next :: more) =>
    exact .cons rfl (leads_memberTokens ((key, value) :: next :: more) [] outer nofun)

theorem leads_itemTokens (items before : List Json) (outer : List Frame) (some : items ≠ []) :
    Leads (.needValue (.items before :: outer)) (itemTokens items)
      (.complete outer (.array (before.reverse ++ items))) := by
  match items with
  | [item] =>
    refine (leads_tokens item _).append (.cons ?_ (leads_nil _))
    simp [Reading.step]
  | item :: next :: more =>
    have rest := leads_itemTokens (next :: more) (item :: before) outer nofun
    rw [List.reverse_cons, List.append_assoc] at rest
    exact (leads_tokens item _).append (.cons rfl rest)

theorem leads_memberTokens (members before : List (Text × Json)) (outer : List Frame)
    (some : members ≠ []) :
    Leads (.needKey outer before) (memberTokens members)
      (.complete outer (.object (before.reverse ++ members))) := by
  match members with
  | [(key, value)] =>
    refine .cons rfl (.cons rfl ((leads_tokens value _).append (.cons ?_ (leads_nil _))))
    simp [Reading.step]
  | (key, value) :: next :: more =>
    have rest := leads_memberTokens (next :: more) ((key, value) :: before) outer nofun
    rw [List.reverse_cons, List.append_assoc] at rest
    exact .cons rfl (.cons rfl ((leads_tokens value _).append (.cons rfl rest)))

end

theorem ofTokens?_tokens (j : Json) : ofTokens? j.tokens = some j := by
  have leads := leads_tokens j []
  rw [Leads] at leads
  rw [ofTokens?, leads]

/-- Every value is read back from its text. -/
theorem parse?_render (j : Json) : parse? j.render = some j := by
  rw [parse?, render, String.toList_ofList, tokenize_tokens, Option.bind_some, ofTokens?_tokens]

end FlowLint.Json
