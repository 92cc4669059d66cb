import Inflow.Codec.Form
import Inflow.Proofs.Fault
/-!
# Documents with members left out

What a form writes, it reads again. For records more is true: members that may
be left out can be taken from what is written, and the record read then has the
values of its blank there and all others as they were. `Omission` says which
members are taken out, at any depth, and `Reads` how a record is read from what
remains, column by column.
-/

namespace Inflow

/-! ## Taking members out -/

namespace Json

/-- A step into a document: to the member under a key, or to an item of an array. -/
inductive Step where
  | key (key : String)
  | item (i : Nat)
  deriving DecidableEq, Repr

/-- The members of a document that are left out, by the paths that lead to them. -/
abbrev Omission := List Step → Bool

namespace Omission

variable (D : Omission)

/-- The member under a key is left out. -/
def drops (key : String) : Bool := D [.key key]

/-- What is left out of the member under a key. -/
def under (key : String) : Omission := fun path => D (.key key :: path)

/-- What is left out of an item. -/
def inItem (i : Nat) : Omission := fun path => D (.item i :: path)

/-- Nothing is left out but members with paths in `P`. -/
def Within (P : List Step → Prop) : Prop := ∀ s path, D (s :: path) = true → P (s :: path)

/-- Nothing is left out. -/
def Clear : Prop := D.Within fun _ => False

variable {D} {P Q : List Step → Prop}

theorem Within.under (h : D.Within P) {key : String} (hP : ∀ s path, P (.key key :: s :: path) → Q (s :: path)) :
    (D.under key).Within Q := fun s path hs => hP s path (h _ _ hs)

theorem Within.inItem (h : D.Within P) {i : Nat} (hP : ∀ s path, P (.item i :: s :: path) → Q (s :: path)) :
    (D.inItem i).Within Q := fun s path hs => hP s path (h _ _ hs)

theorem Within.keeps (h : D.Within P) {key : String} (hP : ¬ P [.key key]) : D.drops key = false :=
  Bool.eq_false_iff.2 fun hd => hP (h _ _ hd)

theorem clear_none : Clear fun _ => false := fun _ _ => Bool.false_ne_true

theorem Clear.under (h : D.Clear) (key : String) : (D.under key).Clear := Within.under h fun _ _ => id

theorem Clear.inItem (h : D.Clear) (i : Nat) : (D.inItem i).Clear := Within.inItem h fun _ _ => id

theorem Clear.keeps (h : D.Clear) (key : String) : D.drops key = false := Within.keeps h id

end Omission

mutual

/-- A document without the members that are left out. -/
def without : Json → Omission → Json
  | array items, D => array (itemsWithout items D 0)
  | object members, D => object (membersWithout members D)
  | j, _ => j

def itemsWithout : List Json → Omission → Nat → List Json
  | [], _, _ => []
  | item :: items, D, i => item.without (D.inItem i) :: itemsWithout items D (i + 1)

def membersWithout : List (Option String × Json) → Omission → List (Option String × Json)
  | [], _ => []
  | (none, value) :: members, D => (none, value) :: membersWithout members D
  | (some key, value) :: members, D =>
    if D.drops key then membersWithout members D
    else (some key, value.without (D.under key)) :: membersWithout members D

end

mutual

theorem without_of_clear {D : Omission} (h : D.Clear) : (j : Json) → j.without D = j
  | array items => by rw [without, itemsWithout_of_clear h 0 items]
  | object members => by rw [without, membersWithout_of_clear h members]
  | null | bool _ | number _ | string _ | tooDeep => by simp [without]

theorem itemsWithout_of_clear {D : Omission} (h : D.Clear) (i : Nat) :
    (items : List Json) → itemsWithout items D i = items
  | [] => rfl
  | item :: items => by
    rw [itemsWithout, without_of_clear (h.inItem i) item, itemsWithout_of_clear h (i + 1) items]

theorem membersWithout_of_clear {D : Omission} (h : D.Clear) :
    (members : List (Option String × Json)) → membersWithout members D = members
  | [] => rfl
  | (none, value) :: members => by rw [membersWithout, membersWithout_of_clear h members]
  | (some key, value) :: members => by
    rw [membersWithout, h.keeps key, without_of_clear (h.under key) value, membersWithout_of_clear h members]
    rfl

end

theorem itemsWithout_eq (items : List Json) (D : Omission) (i : Nat) :
    itemsWithout items D i = items.mapIdx fun j item => item.without (D.inItem (i + j)) := by
  induction items generalizing i with
  | nil => rfl
  | cons item items ih =>
    rw [itemsWithout, ih, List.mapIdx_cons]
    simp only [Nat.add_zero, Nat.add_assoc, Nat.add_comm 1]

theorem without_ofMembers (members : List (String × Json)) (D : Omission) :
    (ofMembers members).without D =
      ofMembers ((members.filter fun m => !D.drops m.1).map fun m => (m.1, m.2.without (D.under m.1))) := by
  rw [ofMembers, without, ofMembers]
  congr 1
  induction members with
  | nil => rfl
  | cons m members ih =>
    rw [List.map_cons, membersWithout, ih]
    cases h : D.drops m.1 with
    | true => rw [if_pos rfl, List.filter_cons_of_neg (by simp [h])]
    | false => rw [if_neg (by simp), List.filter_cons_of_pos (by simp [h]), List.map_cons, List.map_cons]

end Json

open Json (Omission)

/-! ## Values -/

namespace Form

variable {β : Type}

/-- The form reads what it has written for `x`. -/
def Keeps (form : Form β) (x : β) : Prop := form.ofJson (form.toJson x) = .ok x

/-- What has no members is read whatever is left out elsewhere. -/
theorem Keeps.without {form : Form β} {x : β} (h : form.Keeps x) {D : Omission} (hD : D.Clear) :
    form.ofJson ((form.toJson x).without D) = .ok x := by
  rw [Json.without_of_clear hD]
  exact h

theorem keeps_count {n : Nat} (h : n ≤ Count.limit) : count.Keeps n := if_pos h

theorem real_ofFloat {x : Float} (h : x.isFinite) : Decode.real (.ofFloat x) = .ok x := by
  simp [Json.ofFloat, h, Decode.real, Json.Number.toFloat?]

theorem keeps_real {x : Float} (h : x.isFinite) : real.Keeps x := real_ofFloat h

theorem keeps_boolean (b : Bool) : boolean.Keeps b := rfl

theorem keeps_text (s : String) : text.Keeps s := rfl

theorem keeps_integerUpTo {limit : Nat} {i : Int} (hlow : -(limit + 1) ≤ i) (hhigh : i ≤ limit) :
    (integerUpTo limit).Keeps i := by
  rw [Keeps, integerUpTo, toJson, ofJson, Json.ofInt]
  split
  · rw [Decode.integerUpTo, if_pos (by omega), Int.ofNat_natAbs_of_nonpos (by omega), Int.neg_neg]
  · rw [Decode.integerUpTo, if_pos (by omega), Int.natAbs_of_nonneg (by omega)]

theorem mapM_map_eq_ok {toJson : β → Json} {ofJson : Json → Decoded β} {xs : List β}
    (h : ∀ x ∈ xs, ofJson (toJson x) = .ok x) : (xs.map toJson).mapM ofJson = .ok xs := by
  rw [mapM_eq_ok, List.forall₂_map_left_iff]
  exact List.forall₂_same.2 h

theorem list_encode {toJson : β → Json} {ofJson : Json → Decoded β} {xs : List β}
    (h : ∀ x ∈ xs, ofJson (toJson x) = .ok x) : Decode.list ofJson (Encode.list toJson xs) = .ok xs :=
  mapM_map_eq_ok h

theorem array_encode {toJson : β → Json} {ofJson : Json → Decoded β} {xs : Array β}
    (h : ∀ x ∈ xs, ofJson (toJson x) = .ok x) : Decode.array ofJson (Encode.array toJson xs) = .ok xs := by
  rw [Decode.array, Encode.array, list_encode fun x hx => h x (Array.mem_toList_iff.1 hx)]
  rfl

theorem vector_encode {n : Nat} {toJson : β → Json} {ofJson : Json → Decoded β} {v : Vector β n}
    (h : ∀ x ∈ v, ofJson (toJson x) = .ok x) : Decode.vector n ofJson (Encode.vector toJson v) = .ok v := by
  have harray : Decode.array ofJson (Encode.vector toJson v) = .ok v.toArray :=
    array_encode fun x hx => h x ((Vector.mem_toArray_iff x v).1 hx)
  rw [Decode.vector, harray]
  simp only [bind, Except.bind, v.size_toArray, dif_pos]
  rfl

theorem keeps_vector {n : Nat} {v : Vector Float n} (h : ∀ x ∈ v, x.isFinite) : (vector n).Keeps v :=
  vector_encode fun x hx => real_ofFloat (h x hx)

theorem keeps_vectorOf {n : Nat} {item : Form β} {v : Vector β n} (h : ∀ x ∈ v, item.Keeps x) :
    (vectorOf n item).Keeps v := vector_encode h

theorem keeps_list {item : Form β} {xs : List β} (h : ∀ x ∈ xs, item.Keeps x) : (list item).Keeps xs := list_encode h

theorem keeps_array {item : Form β} {xs : Array β} (h : ∀ x ∈ xs, item.Keeps x) : (array item).Keeps xs :=
  array_encode h

/-- A value that is not written as null is told apart from none. -/
theorem keeps_nullable {item : Form β} {x : β} (h : item.Keeps x) (hnull : item.toJson x ≠ .null) :
    (nullable item).Keeps (some x) := by
  rw [Keeps, nullable, toJson, ofJson, Encode.nullable, Decode.nullable.eq_2 _ _ hnull, h]
  rfl

/-- A list is read item by item, each without what is left out of it. -/
theorem list_without {item : Form β} {xs : List β} {D : Omission} {f : Nat → β → β}
    (h : ∀ i x, xs[i]? = some x → item.ofJson ((item.toJson x).without (D.inItem i)) = .ok (f i x)) :
    (list item).ofJson (((list item).toJson xs).without D) = .ok (xs.mapIdx f) := by
  rw [list, toJson, ofJson, Encode.list, Json.without, Decode.list, Json.itemsWithout_eq, mapM_eq_ok,
    List.forall₂_iff_get]
  simp only [List.length_mapIdx, List.length_map, List.get_eq_getElem, List.getElem_mapIdx, List.getElem_map,
    Nat.zero_add, true_and]
  intro i hi _
  exact h i _ (List.getElem?_eq_getElem hi)

end Form

/-! ## Records -/

section Records

variable {ρ : Type}

/-- A column of a record stands in the document that is left of it. -/
def Column.remains (D : Omission) (r : ρ) (c : Column ρ) : Bool := c.isWritten r && !D.drops c.key

/-- The value of a record under its key, without what is left out of it. -/
def Column.remnant (D : Omission) (r : ρ) (c : Column ρ) : Json := (c.form.toJson (c.get r)).without (D.under c.key)

/-- How columns are read from what is left of the document of a record. -/
inductive Reads (D : Omission) (r : ρ) : List (Column ρ) → ρ → ρ → Prop
  | nil (acc : ρ) : Reads D r [] acc acc
  | found {c cs acc out} (remains : c.remains D r = true) {v : c.β} (read : c.form.ofJson (c.remnant D r) = .ok v)
      (rest : Reads D r cs (c.set v acc) out) : Reads D r (c :: cs) acc out
  | absent {c cs acc out} (remains : c.remains D r = false) (optional : c.presence ≠ .required)
      (rest : Reads D r cs acc out) : Reads D r (c :: cs) acc out

variable {columns : List (Column ρ)} {D : Omission} {r : ρ}

theorem lookup_map_of_mem {cs : List (Column ρ)} (value : Column ρ → Json) (hkeys : (cs.map (·.key)).Nodup)
    {c : Column ρ} (hc : c ∈ cs) : (cs.map fun c => (c.key, value c)).lookup c.key = some (value c) := by
  induction cs with
  | nil => cases hc
  | cons d cs ih =>
    rw [List.map_cons, List.nodup_cons] at hkeys
    rw [List.map_cons]
    rcases List.mem_cons.1 hc with rfl | hc
    · rw [List.lookup_cons_self]
    · have hne : c.key ≠ d.key := fun heq => hkeys.1 (heq ▸ List.mem_map_of_mem hc)
      rw [List.lookup_cons, beq_eq_false_iff_ne.2 hne]
      exact ih hkeys.2 hc

theorem repeatedKey?_eq_none {keys : List String} (h : keys.Nodup) : Fields.repeatedKey? keys = none := by
  induction keys with
  | nil => rfl
  | cons key keys ih =>
    rw [List.nodup_cons] at h
    rw [Fields.repeatedKey?, if_neg (by simpa using h.1), ih h.2]

/-- The fields found in an object with known keys, none of which comes twice. -/
theorem ofObject_ofMembers {keys : List String} {members : List (String × Json)}
    (hknown : ∀ m ∈ members, m.1 ∈ keys) (hnodup : (members.map (·.1)).Nodup) :
    Fields.ofJson keys (.ofMembers members) = .ok { entries := members, byPosition := false } := by
  have hfilter : (members.filter fun m => keys.contains m.1) = members :=
    List.filter_eq_self.2 fun m hm => by simpa using hknown m hm
  simp only [Json.ofMembers, Fields.ofJson, Fields.ofObject, bind_eq_ok]
  refine ⟨members, ?_, ?_⟩
  · rw [mapM_eq_ok, List.forall₂_map_left_iff]
    exact List.forall₂_same.2 fun _ _ => rfl
  · simp only [hfilter, repeatedKey?_eq_none hnodup]
    rfl

/-- What is left of the document of a record. -/
theorem record_without (blank : ρ) :
    ((Form.record columns blank).toJson r).without D =
      .ofMembers ((columns.filter (Column.remains D r)).map fun c => (c.key, c.remnant D r)) := by
  rw [Form.record, Form.toJson, Json.without_ofMembers, List.filter_map, List.map_map, List.filter_filter]
  congr 2
  refine List.filter_congr fun c _ => ?_
  rw [Column.remains, Bool.and_comm]
  rfl

/-- The fields that are left of a record. -/
def fieldsLeft (D : Omission) (r : ρ) (columns : List (Column ρ)) : Fields :=
  { entries := (columns.filter (Column.remains D r)).map fun c => (c.key, c.remnant D r), byPosition := false }

theorem fields_without (hkeys : (columns.map (·.key)).Nodup) (blank : ρ) :
    Fields.ofJson (columns.map (·.key)) (((Form.record columns blank).toJson r).without D) =
      .ok (fieldsLeft D r columns) := by
  rw [record_without]
  refine ofObject_ofMembers ?_ ?_
  · rintro _ hm
    obtain ⟨c, hc, rfl⟩ := List.mem_map.1 hm
    exact List.mem_map_of_mem (List.mem_filter.1 hc).1
  · rw [List.map_map]
    exact hkeys.sublist (List.filter_sublist.map _)

theorem find?_fieldsLeft (hkeys : (columns.map (·.key)).Nodup) {c : Column ρ} (hc : c ∈ columns) :
    (fieldsLeft D r columns).find? c.key = if c.remains D r then some (c.remnant D r) else none := by
  rw [Fields.find?, fieldsLeft]
  cases hremains : c.remains D r with
  | true => exact lookup_map_of_mem _ (hkeys.sublist (List.filter_sublist.map _)) (List.mem_filter.2 ⟨hc, hremains⟩)
  | false =>
    -- No other column has the key.
    refine List.lookup_eq_none_iff.2 fun m hm => ?_
    obtain ⟨d, hd, rfl⟩ := List.mem_map.1 hm
    obtain ⟨hd, hdremains⟩ := List.mem_filter.1 hd
    refine bne_iff_ne.2 fun heq => ?_
    rw [List.inj_on_of_nodup_map hkeys hc hd heq, hdremains] at hremains
    cases hremains

theorem Reads.foldlM {cs : List (Column ρ)} {acc out : ρ} (h : Reads D r cs acc out)
    (hkeys : (columns.map (·.key)).Nodup) (hcs : cs ⊆ columns) :
    cs.foldlM (Column.fill (fieldsLeft D r columns)) acc = .ok out := by
  induction h with
  | nil acc => rfl
  | @found c cs acc out hremains v hread _ ih =>
    rw [List.foldlM_cons, bind_eq_ok]
    refine ⟨c.set v acc, ?_, ih (List.subset_of_cons_subset hcs)⟩
    rw [Column.fill, find?_fieldsLeft hkeys (hcs List.mem_cons_self), if_pos hremains]
    simp only [hread]
    rfl
  | @absent c cs acc out hremains hoptional _ ih =>
    rw [List.foldlM_cons, bind_eq_ok]
    refine ⟨acc, ?_, ih (List.subset_of_cons_subset hcs)⟩
    rw [Column.fill, find?_fieldsLeft hkeys (hcs List.mem_cons_self), if_neg (by simp [hremains])]
    cases hpresence : c.presence with
    | required => exact absurd hpresence hoptional
    | implied => rfl
    | impliedByKey => rfl

/-- A record is read from what is left of its document. -/
theorem Reads.ofJson {blank out : ρ} (hkeys : (columns.map (·.key)).Nodup) (h : Reads D r columns blank out) :
    (Form.record columns blank).ofJson (((Form.record columns blank).toJson r).without D) = .ok out := by
  refine bind_eq_ok.2 ⟨fieldsLeft D r columns, fields_without hkeys blank, ?_⟩
  exact h.foldlM hkeys (List.Subset.refl _)

theorem Reads.keeps {blank : ρ} (hkeys : (columns.map (·.key)).Nodup)
    (h : Reads (fun _ => false) r columns blank r) : (Form.record columns blank).Keeps r := by
  have hread := h.ofJson hkeys
  rwa [Json.without_of_clear Json.Omission.clear_none] at hread

/-! ## Columns -/

variable {β : Type} {cs : List (Column ρ)} {acc out : ρ} {key : String} {form : Form β} {get : ρ → β} {set : β → ρ → ρ}

/-- A column that may be left out is read as it was, or as the blank has it. -/
theorem Reads.implied {x : β} (hset : set (get acc) acc = acc)
    (hread : form.ofJson ((form.toJson (get r)).without (D.under key)) = .ok x)
    (rest : Reads D r cs (set (if D.drops key then get acc else x) acc) out) :
    Reads D r (.implied key form get set :: cs) acc out := by
  cases hd : D.drops key with
  | true =>
    rw [hd, if_pos rfl, hset] at rest
    exact .absent (by simp [Column.remains, Column.implied, hd]) (by simp [Column.implied]) rest
  | false =>
    rw [hd, if_neg Bool.false_ne_true] at rest
    exact .found (by simp [Column.remains, Column.implied, hd]) hread rest

/-- A column that is not left out is read as it was. -/
theorem Reads.required {x : β} (hkeeps : D.drops key = false)
    (hread : form.ofJson ((form.toJson (get r)).without (D.under key)) = .ok x)
    (rest : Reads D r cs (set x acc) out) : Reads D r (.required key form get set :: cs) acc out :=
  .found (by simp [Column.remains, Column.required, hkeeps]) hread rest

end Records
end Inflow
