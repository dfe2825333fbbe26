import Conform.Json.Reader
import Conform.Proofs.Json.Scanning
import Conform.Proofs.Text.Pieces

/-!
# Reading what was written

Reading the tokens of a value has the effect of delivering it to the container it is due in.  So the
tokens of a value are read as that value (`ofTokens?_tokens`), and its text as the value with the
strings reread (`parse?_text`), unless a numeral in it has no grammar.

Induction on values is `Json.ind`; the values of a container enter it by membership, and what
a container does with its values is an induction on the list by itself.
-/

namespace Conform.Json

/-- Induction on values; the values in a container are given by membership. -/
@[elab_as_elim]
theorem ind {motive : Json → Prop} (null : motive null) (bool : ∀ b, motive (bool b))
    (number : ∀ numeral, motive (number numeral)) (string : ∀ pieces, motive (string pieces))
    (array : ∀ items, (∀ v ∈ items, motive v) → motive (array items))
    (object : ∀ members, (∀ m ∈ members, motive m.2) → motive (object members)) (v : Json) :
    motive v := by
  refine @Json.rec motive (fun items => ∀ v ∈ items, motive v)
    (fun members => ∀ m ∈ members, motive m.2) (fun m => motive m.2)
    null bool number string array object ?_ ?_ ?_ ?_ (fun _ _ ih => ih) v
  · intro v hv
    cases hv
  · intro v vs ih ihs w hw
    rcases List.mem_cons.1 hw with rfl | hw
    · exact ih
    · exact ihs w hw
  · intro m hm
    cases hm
  · intro m ms ih ihs n hn
    rcases List.mem_cons.1 hn with rfl | hn
    · exact ih
    · exact ihs n hn

/-! ### Rereading -/

mutual

/-- The value that the text of a value is read as: the same with its strings reread. -/
def reread : Json → Json
  | string pieces => string (pieces.map Piece.reread)
  | array items => array (rereadItems items)
  | object members => object (rereadMembers members)
  | v => v

/-- Each element reread. -/
def rereadItems : List Json → List Json
  | [] => []
  | v :: vs => v.reread :: rereadItems vs

/-- The name and the contents of each member reread. -/
def rereadMembers : List (List Piece × Json) → List (List Piece × Json)
  | [] => []
  | (name, v) :: ms => (name.map Piece.reread, v.reread) :: rereadMembers ms

end

theorem rereadItems_eq_map (items : List Json) : rereadItems items = items.map reread := by
  induction items with
  | nil => rfl
  | cons v vs ih => rw [rereadItems, ih, List.map_cons]

theorem rereadMembers_eq_map (members : List (List Piece × Json)) :
    rereadMembers members = members.map fun m => (m.1.map Piece.reread, m.2.reread) := by
  induction members with
  | nil => rfl
  | cons m ms ih => rw [rereadMembers, ih, List.map_cons]

theorem tokensItems_eq_map (items : List Json) : tokensItems items = items.map tokens := by
  induction items with
  | nil => rfl
  | cons v vs ih => rw [tokensItems, ih, List.map_cons]

/-- The tokens of a member. -/
def memberTokens (m : List Piece × Json) : List Token := .string m.1 :: .colon :: m.2.tokens

theorem tokensMembers_eq_map (members : List (List Piece × Json)) :
    tokensMembers members = members.map memberTokens := by
  induction members with
  | nil => rfl
  | cons m ms ih => rw [tokensMembers, ih, List.map_cons, memberTokens]

theorem separated_cons (row : List Token) (rows : List (List Token)) :
    separated (row :: rows) = row ++ rows.flatMap (Token.comma :: ·) :=
  intercalate_cons_eq_flatMap [Token.comma] row rows

theorem map_reread_separated (rows : List (List Token)) :
    (separated rows).map Token.reread = separated (rows.map fun row => row.map Token.reread) := by
  cases rows with
  | nil => rfl
  | cons row rows =>
    rw [List.map_cons, separated_cons, separated_cons]
    simp [List.map_flatMap, List.flatMap_map, Token.reread]

theorem map_reread_tokens (v : Json) : v.tokens.map Token.reread = v.reread.tokens := by
  induction v using Json.ind with
  | null | bool _ | number _ | string _ => rfl
  | array items ih =>
    have hitems : (tokensItems items).map (fun row => row.map Token.reread) =
        tokensItems (rereadItems items) := by
      rw [tokensItems_eq_map, tokensItems_eq_map, rereadItems_eq_map, List.map_map, List.map_map]
      exact List.map_congr_left ih
    simp [tokens, reread, Token.reread, map_reread_separated, hitems]
  | object members ih =>
    have hmembers : (tokensMembers members).map (fun row => row.map Token.reread) =
        tokensMembers (rereadMembers members) := by
      rw [tokensMembers_eq_map, tokensMembers_eq_map, rereadMembers_eq_map, List.map_map,
        List.map_map]
      refine List.map_congr_left fun m hm => ?_
      simp [memberTokens, Token.reread, ih m hm]
    simp [tokens, reread, Token.reread, map_reread_separated, hmembers]

theorem depthItems_eq_foldr (items : List Json) :
    depthItems items = (items.map depth).foldr max 0 := by
  induction items with
  | nil => rfl
  | cons v vs ih => rw [depthItems, ih, List.map_cons, List.foldr_cons]

theorem depthMembers_eq_foldr (members : List (List Piece × Json)) :
    depthMembers members = (members.map fun m => m.2.depth).foldr max 0 := by
  induction members with
  | nil => rfl
  | cons m ms ih => rw [depthMembers, ih, List.map_cons, List.foldr_cons]

/-- Rereading goes no deeper. -/
theorem depth_reread (v : Json) : v.reread.depth = v.depth := by
  induction v using Json.ind with
  | null | bool _ | number _ | string _ => rfl
  | array items ih =>
    have hitems : (items.map reread).map depth = items.map depth := by
      rw [List.map_map]
      exact List.map_congr_left ih
    rw [reread, depth, depth, depthItems_eq_foldr, depthItems_eq_foldr, rereadItems_eq_map, hitems]
  | object members ih =>
    have hmembers : (rereadMembers members).map (fun m => m.2.depth) =
        members.map fun m => m.2.depth := by
      rw [rereadMembers_eq_map, List.map_map]
      exact List.map_congr_left ih
    rw [reread, depth, depth, depthMembers_eq_foldr, depthMembers_eq_foldr, hmembers]

/-! ### The machine -/

namespace Reading

theorem run_append (ts us : List Token) (reading : Reading) :
    run (ts ++ us) reading = (run ts reading).bind (run us) := by
  induction ts generalizing reading with
  | nil => rfl
  | cons t ts ih => simp [run, Option.bind_assoc, ih]

/-- Reading the value delivers it, wherever it is due. -/
def Delivers (v : Json) : Prop :=
  ∀ around, run v.tokens (valueDue around) = some (deliver v around)

/-- A value begins with a token of its own, so an array is not over before its first element. -/
theorem run_tokens_firstItemDue {v : Json} (h : Delivers v) (around : List Frame) :
    run v.tokens (firstItemDue around) = some (afterItem [v] around) := by
  have hfirst : run v.tokens (firstItemDue around) =
      run v.tokens (valueDue (.items [] :: around)) := by
    cases v <;> rfl
  rw [hfirst, h (.items [] :: around), deliver]

/-- The elements after the first, each behind its comma. -/
theorem run_items {items : List Json} (h : ∀ v ∈ items, Delivers v) (done : List Json)
    (around : List Frame) :
    run ((items.map tokens).flatMap (Token.comma :: ·)) (afterItem done around) =
      some (afterItem (items.reverse ++ done) around) := by
  induction items generalizing done with
  | nil => rfl
  | cons v vs ih =>
    have hv := h v List.mem_cons_self (.items done :: around)
    have hvs := ih (fun w hw => h w (List.mem_cons_of_mem v hw)) (v :: done)
    rw [List.map_cons, List.flatMap_cons, run_append, run, step, Option.bind_some, hv,
      Option.bind_some, deliver, hvs]
    simp

theorem run_memberTokens {m : List Piece × Json} (h : Delivers m.2)
    (done : List (List Piece × Json)) (around : List Frame) :
    run (memberTokens m) (nameDue done around) = some (afterMember (m :: done) around) := by
  have hv := h (.member m.1 done :: around)
  simpa [memberTokens, run, step, deliver] using hv

/-- The members after the first, each behind its comma. -/
theorem run_members {members : List (List Piece × Json)} (h : ∀ m ∈ members, Delivers m.2)
    (done : List (List Piece × Json)) (around : List Frame) :
    run ((members.map memberTokens).flatMap (Token.comma :: ·)) (afterMember done around) =
      some (afterMember (members.reverse ++ done) around) := by
  induction members generalizing done with
  | nil => rfl
  | cons m ms ih =>
    have hm := run_memberTokens (h m List.mem_cons_self) done around
    have hms := ih (fun n hn => h n (List.mem_cons_of_mem m hn)) (m :: done)
    rw [List.map_cons, List.flatMap_cons, run_append, run, step, Option.bind_some, hm,
      Option.bind_some, hms]
    simp

theorem delivers (v : Json) : Delivers v := by
  induction v using Json.ind with
  | null | bool _ | number _ | string _ => exact fun around => rfl
  | array items ih =>
    intro around
    cases items with
    | nil => rfl
    | cons v vs =>
      have hfirst := run_tokens_firstItemDue (ih v List.mem_cons_self) around
      have hrest := run_items (fun w hw => ih w (List.mem_cons_of_mem v hw)) [v] around
      rw [tokens, tokensItems_eq_map, List.map_cons, separated_cons, run, step, begin,
        Option.bind_some, run_append, run_append, hfirst, Option.bind_some, hrest]
      simp [run, step]
  | object members ih =>
    intro around
    cases members with
    | nil => rfl
    | cons m ms =>
      have hfirst : run (memberTokens m) (firstNameDue around) =
          some (afterMember [m] around) := run_memberTokens (ih m List.mem_cons_self) [] around
      have hrest := run_members (fun n hn => ih n (List.mem_cons_of_mem m hn)) [m] around
      rw [tokens, tokensMembers_eq_map, List.map_cons, separated_cons, run, step, begin,
        Option.bind_some, run_append, run_append, hfirst, Option.bind_some, hrest]
      simp [run, step]

end Reading

theorem ofTokens?_tokens (v : Json) : ofTokens? v.tokens = some v := by
  rw [ofTokens?, Reading.delivers v []]
  rfl

/-! ### Spacing -/

namespace Token

theorem Spaced.cons {t : Token} {ts : List Token} (ht : t.isBare = false) (hts : Spaced ts) :
    Spaced (t :: ts) :=
  List.isChain_cons.2 ⟨fun _ _ => .inl ht, hts⟩

/-- A row may end before a token that is delimited by itself. -/
theorem Spaced.append {t : Token} {ts us : List Token} (hts : Spaced ts) (ht : t.isBare = false)
    (hus : Spaced us) : Spaced (ts ++ t :: us) := by
  refine List.isChain_append.2 ⟨hts, hus.cons ht, ?_⟩
  intro u _ w hw
  obtain rfl : t = w := by simpa using hw
  exact .inr ht

theorem spaced_separated {rows : List (List Token)} (h : ∀ row ∈ rows, Spaced row)
    {last : Token} (hlast : last.isBare = false) : Spaced (separated rows ++ [last]) := by
  cases rows with
  | nil => exact .singleton last
  | cons row rows =>
    rw [separated_cons]
    induction rows generalizing row with
    | nil => simpa using (h row List.mem_cons_self).append hlast .nil
    | cons next rows ih =>
      have hnext := ih next fun r hr => h r (List.mem_cons_of_mem row hr)
      simpa using (h row List.mem_cons_self).append (t := .comma) rfl hnext

end Token

theorem spaced_tokens (v : Json) : Token.Spaced v.tokens := by
  induction v using Json.ind with
  | null | bool _ | number _ | string _ => exact .singleton _
  | array items ih =>
    refine .cons rfl (Token.spaced_separated ?_ rfl)
    rw [tokensItems_eq_map]
    exact List.forall_mem_map.2 ih
  | object members ih =>
    refine .cons rfl (Token.spaced_separated ?_ rfl)
    rw [tokensMembers_eq_map]
    exact List.forall_mem_map.2 fun m hm => .cons rfl (.cons rfl (ih m hm))

/-! ### Numerals in a value -/

theorem mem_separated {t : Token} {rows : List (List Token)} (ht : t ≠ .comma) :
    t ∈ separated rows ↔ ∃ row ∈ rows, t ∈ row := by
  cases rows with
  | nil => simp [separated]
  | cons row rows => simp [separated_cons, ht]

theorem number_mem_array {numeral : List Char} {items : List Json} :
    Token.number numeral ∈ (array items).tokens ↔ ∃ v ∈ items, Token.number numeral ∈ v.tokens := by
  simp [tokens, mem_separated, tokensItems_eq_map]

theorem number_mem_object {numeral : List Char} {members : List (List Piece × Json)} :
    Token.number numeral ∈ (object members).tokens ↔
      ∃ m ∈ members, Token.number numeral ∈ m.2.tokens := by
  simp [tokens, mem_separated, tokensMembers_eq_map, memberTokens]

theorem number_mem_ofMembers {numeral : List Char} {members : List (String × Json)} :
    Token.number numeral ∈ (ofMembers members).tokens ↔
      ∃ m ∈ members, Token.number numeral ∈ m.2.tokens := by
  rw [ofMembers, number_mem_object]
  simp only [List.mem_map, exists_exists_and_eq_and]

/-! ### The text of a value -/

/-- Every numeral in the value has the characters of numerals. -/
def Writable (v : Json) : Prop :=
  ∀ numeral, Token.number numeral ∈ v.tokens → (Token.number numeral).Writable

theorem parse?_text {v : Json} (h : v.Writable) :
    parse? v.text = if v.tokens.all Token.isGrammatical then some v.reread else none := by
  have htokens : ∀ t ∈ v.tokens, t.Writable := by
    intro t ht
    cases t with
    | number numeral => exact h numeral ht
    | _ => trivial
  rw [parse?, text, Token.scan_text (spaced_tokens v) htokens, map_reread_tokens]
  split
  · exact ofTokens?_tokens v.reread
  · rfl

/-- The text of a value is read as the value reread or as nothing. -/
theorem eq_reread_of_parse?_text {v w : Json} (h : v.Writable) (hw : parse? v.text = some w) :
    w = v.reread := by
  rw [parse?_text h] at hw
  split at hw
  · exact (Option.some.inj hw).symm
  · cases hw

theorem parse?_text_of_grammatical {v : Json} (h : v.Writable)
    (hgrammar : ∀ numeral, Token.number numeral ∈ v.tokens → (Numeral.parse? numeral).isSome) :
    parse? v.text = some v.reread := by
  rw [parse?_text h, if_pos]
  refine List.all_eq_true.2 fun t ht => ?_
  cases t with
  | number numeral => exact hgrammar numeral ht
  | _ => rfl

end Conform.Json
