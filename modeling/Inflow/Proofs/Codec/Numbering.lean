import Inflow.Codec.Scenario
import Inflow.Proofs.Fault
/-!
# Numberings of the zones that are read

A numbering is attached to a zone only if it has one id per element. Zones that are
read are not held to that: lists of elements and of ids stand side by side in a
document, and each is taken as it is. So the numbering of a zone fails to match its
elements exactly if the zone was read where the two lists have different lengths,
alone or somewhere inside a registry or a scenario.
-/

namespace Inflow

/-- A value that stands in a document, at any depth. -/
inductive Json.PartOf (d : Json) : Json → Prop
  | self : PartOf d d
  | item {items : List Json} {j : Json} (outer : PartOf d (.array items)) (h : j ∈ items) : PartOf d j
  | member {members : List (Option String × Json)} {key : Option String} {j : Json}
      (outer : PartOf d (.object members)) (h : (key, j) ∈ members) : PartOf d j

theorem Json.PartOf.trans {d j k : Json} (h : d.PartOf j) (hk : j.PartOf k) : d.PartOf k := by
  induction hk with
  | self => exact h
  | item _ hmem ih => exact .item ih hmem
  | member _ hmem ih => exact .member ih hmem

/-! ## Where the values of a record stand -/

/-- What is found for a record stands in its document. -/
theorem Fields.partOf {keys : List String} {d j : Json} {f : Fields} {key : String}
    (h : Fields.ofJson keys d = .ok f) (hfind : f.find? key = some j) : d.PartOf j := by
  have hmem : (key, j) ∈ f.entries := by
    obtain ⟨before, after, hentries, -⟩ := List.lookup_eq_some_iff.1 hfind
    rw [hentries]
    exact List.mem_append_right before List.mem_cons_self
  cases d with
  | object members =>
    simp only [Fields.ofJson, Fields.ofObject, bind_eq_ok] at h
    obtain ⟨named, hnamed, h⟩ := h
    split at h
    · cases h
    · cases h
      obtain ⟨⟨k, v⟩, hmember, hk⟩ := exists_of_mem_of_mapM_eq_ok hnamed (List.mem_filter.1 hmem).1
      cases k with
      | none => cases hk
      | some k =>
        cases hk
        exact .member .self hmember
  | array items =>
    simp only [Fields.ofJson] at h
    split at h
    · cases h
      exact .item .self (List.of_mem_zip hmem).2
    · cases h
  | _ => cases h

/-- Filling in a column takes what is found under its key, or leaves the record as it is. -/
theorem Column.fill_eq_ok {ρ : Type} {f : Fields} {r r' : ρ} {c : Column ρ} (h : c.fill f r = .ok r') :
    (∃ j b, f.find? c.key = some j ∧ c.form.ofJson j = .ok b ∧ r' = c.set b r) ∨
      (f.find? c.key = none ∧ c.presence ≠ .required ∧ r' = r) := by
  unfold Column.fill at h
  split at h
  · obtain ⟨b, hb, hr⟩ := bind_eq_ok.1 h
    exact .inl ⟨_, b, ‹_›, hb, pure_eq_ok.1 hr⟩
  · split at h
    · rename_i hpresence
      cases h
      refine .inr ⟨‹_›, fun hrequired => ?_, rfl⟩
      simp [hrequired] at hpresence
    · cases h

theorem Column.fill_of_required {ρ : Type} {f : Fields} {r r' : ρ} {c : Column ρ} (h : c.fill f r = .ok r')
    (hrequired : c.presence = .required) :
    ∃ j b, f.find? c.key = some j ∧ c.form.ofJson j = .ok b ∧ r' = c.set b r := by
  rcases fill_eq_ok h with hfound | ⟨-, hpresence, -⟩
  · exact hfound
  · exact absurd hrequired hpresence

theorem Form.record_eq_ok {ρ : Type} {columns : List (Column ρ)} {blank r : ρ} {d : Json} :
    (Form.record columns blank).ofJson d = .ok r ↔
      ∃ f, Fields.ofJson (columns.map (·.key)) d = .ok f ∧ columns.foldlM (Column.fill f) blank = .ok r :=
  bind_eq_ok

/-- What holds of a record and is kept by each value that is filled in holds when all are. -/
theorem fills_keep {ρ : Type} {Q : ρ → Prop} {f : Fields} {columns : List (Column ρ)} {r r' : ρ}
    (h : columns.foldlM (Column.fill f) r = .ok r') (hr : Q r)
    (hset : ∀ c ∈ columns, ∀ j b, f.find? c.key = some j → c.form.ofJson j = .ok b → ∀ r, Q r → Q (c.set b r)) :
    Q r' := by
  induction columns generalizing r with
  | nil =>
    cases pure_eq_ok.1 h
    exact hr
  | cons c columns ih =>
    rw [List.foldlM_cons] at h
    obtain ⟨r₁, hfill, h⟩ := bind_eq_ok.1 h
    refine ih h ?_ fun c' hc' => hset c' (List.mem_cons_of_mem c hc')
    rcases Column.fill_eq_ok hfill with ⟨j, b, hfind, hb, rfl⟩ | ⟨-, -, rfl⟩
    · exact hset c List.mem_cons_self j b hfind hb r hr
    · exact hr

/-- The items of a list that is read are read from items of its document. -/
theorem exists_mem_of_list_eq_ok {β : Type} {form : Form β} {d : Json} {xs : List β}
    (h : form.list.ofJson d = .ok xs) {x : β} (hx : x ∈ xs) : ∃ j, d.PartOf j ∧ form.ofJson j = .ok x := by
  cases d with
  | array items =>
    obtain ⟨j, hj, hread⟩ := exists_of_mem_of_mapM_eq_ok h hx
    exact ⟨j, .item .self hj, hread⟩
  | _ => cases h

/-- Null is read as no value, all else as a value. -/
theorem nullable_eq_ok {β : Type} {form : Form β} {d : Json} {x : Option β} (h : form.nullable.ofJson d = .ok x) :
    (d = .null ∧ x = none) ∨ ∃ b, form.ofJson d = .ok b ∧ x = some b := by
  cases d with
  | null =>
    cases h
    exact .inl ⟨rfl, rfl⟩
  | _ =>
    obtain ⟨b, hb, h⟩ := bind_eq_ok.1 h
    exact .inr ⟨b, hb, pure_eq_ok.1 h⟩

/-- An array that is read has as many entries as there are items. -/
theorem size_of_array_eq_ok {β : Type} {form : Form β} {d : Json} {xs : Array β} (h : form.array.ofJson d = .ok xs) :
    ∃ items, d = .array items ∧ xs.size = items.length := by
  obtain ⟨ys, hys, h⟩ := bind_eq_ok.1 h
  cases pure_eq_ok.1 h
  cases d with
  | array items => exact ⟨items, rfl, (mapM_eq_ok.1 hys).length_eq.symm⟩
  | _ => cases hys

theorem Form.parse_eq_ok {β : Type} {form : Form β} {text : String} {b : β} :
    form.parse text = .ok b ↔ ∃ d, Json.parse text = some d ∧ form.ofJson d = .ok b := by
  unfold Form.parse
  cases Json.parse text <;> simp

/-! ## Entries of registries and scenarios -/

/-- A registry, each of whose entries is read from a part of the document. -/
def Registry.ReadIn (d : Json) (r : Registry Float) : Prop :=
  ∀ kind, ∀ e ∈ r.zones kind, ∃ j, d.PartOf j ∧ ZoneEntry.form.ofJson j = .ok e

theorem Registry.readIn_of_read {d : Json} {r : Registry Float} (h : form.ofJson d = .ok r) : r.ReadIn d := by
  obtain ⟨f, hf, hfill⟩ := Form.record_eq_ok.1 h
  refine fills_keep hfill (fun kind e he => by cases kind <;> cases he) fun c hc j b hfind hb r hr => ?_
  have hentries {es : List (ZoneEntry Float)} (hes : ZoneEntry.form.list.ofJson j = .ok es) :
      ∀ e ∈ es, ∃ j, d.PartOf j ∧ ZoneEntry.form.ofJson j = .ok e := fun e he =>
    have ⟨i, hpart, hread⟩ := exists_mem_of_list_eq_ok hes he
    ⟨i, (Fields.partOf hf hfind).trans hpart, hread⟩
  simp only [columns, List.mem_cons, List.not_mem_nil, or_false] at hc
  rcases hc with rfl | rfl
  · intro kind
    cases kind with
    | boundary => exact hentries hb
    | volume => exact hr .volume
  · intro kind
    cases kind with
    | boundary => exact hr .boundary
    | volume => exact hentries hb

theorem Scenario.readIn_of_read {d : Json} {s : Scenario Float} (h : form.ofJson d = .ok s) : s.registry.ReadIn d := by
  obtain ⟨f, hf, hfill⟩ := Form.record_eq_ok.1 h
  refine fills_keep (Q := fun s => s.registry.ReadIn d) hfill (fun kind e he => by cases kind <;> cases he)
    fun c hc j b hfind hb s hs => ?_
  simp only [columns, List.mem_cons, List.not_mem_nil, or_false] at hc
  rcases hc with rfl | rfl | rfl | rfl | rfl | rfl | rfl
  case inr.inr.inl =>
    intro kind e he
    obtain ⟨i, hpart, hread⟩ := Registry.readIn_of_read hb kind e he
    exact ⟨i, (Fields.partOf hf hfind).trans hpart, hread⟩
  all_goals exact hs

/-- The zone of an entry is read from a part of its document. -/
theorem ZoneEntry.zone_of_read {d : Json} {e : ZoneEntry Float} (h : form.ofJson d = .ok e) :
    ∃ j, d.PartOf j ∧ Zone.form.ofJson j = .ok e.zone := by
  obtain ⟨f, hf, hfill⟩ := Form.record_eq_ok.1 h
  rw [columns, List.foldlM_cons] at hfill
  obtain ⟨e₁, hzone, hfill⟩ := bind_eq_ok.1 hfill
  obtain ⟨j, z, hfind, hz, rfl⟩ := Column.fill_of_required hzone rfl
  have hfirst : ∃ j, d.PartOf j ∧ Zone.form.ofJson j = .ok z := ⟨j, Fields.partOf hf hfind, hz⟩
  refine fills_keep (Q := fun e => ∃ j, d.PartOf j ∧ Zone.form.ofJson j = .ok e.zone) hfill hfirst
    fun c hc j b hfind hb e he => ?_
  simp only [List.mem_cons, List.not_mem_nil, or_false] at hc
  rcases hc with rfl | rfl <;> exact he

namespace Zone

variable {z : Zone}

/-! ## Numberings and elements -/

/-- A numbering, if there is one, has one id per element. -/
def Matched (z : Zone) : Prop := ∀ ids ∈ z.globalIds, ids.size = z.elements.size

/-- All ids over all ranks are those of a numbering, or all are the local ones. -/
def Uniform (z : Zone) : Prop :=
  (∃ ids ∈ z.globalIds, ∀ i < z.elements.size, z.globalId i = ids[i]?) ∨
    ∀ i < z.elements.size, z.globalId i = z.elements[i]?

/-- A numbering that is short of ids, and gives one that is not the local one. -/
def RunsOut (z : Zone) : Prop :=
  ∃ ids ∈ z.globalIds, ids.size < z.elements.size ∧ ∃ i < ids.size, ids[i]? ≠ z.elements[i]?

theorem globalId_of_lt {ids : Array Nat} (h : ids ∈ z.globalIds) {i : Nat} (hi : i < z.elements.size)
    (hids : i < ids.size) : z.globalId i = ids[i]? := by
  simp [globalId, Option.mem_def.1 h, Array.getElem?_eq_getElem hi, Array.getElem?_eq_getElem hids]

theorem globalId_of_le {i : Nat} (h : ∀ ids ∈ z.globalIds, ids.size ≤ i) : z.globalId i = z.elements[i]? := by
  cases hids : z.globalIds with
  | none => simp [globalId, hids]
  | some ids => simp [globalId, hids, Array.getElem?_eq_none (h ids hids)]

/-- Ids of two kinds are mixed exactly where a numbering runs out. -/
theorem uniform_iff : z.Uniform ↔ ¬ z.RunsOut := by
  constructor
  · rintro huniform ⟨ids, hids, hshort, i, hi, hne⟩
    have hsize {ids' : Array Nat} (h : ids' ∈ z.globalIds) : ids'.size = ids.size := by
      rw [Option.mem_unique h hids]
    rcases huniform with ⟨ids', hids', hall⟩ | hall
    · have hlast := hall ids.size hshort
      rw [globalId_of_le fun _ h => (hsize h).le, Array.getElem?_eq_none (hsize hids').le,
        Array.getElem?_eq_none_iff] at hlast
      omega
    · exact hne ((globalId_of_lt hids (by omega) hi).symm.trans (hall i (by omega)))
  · intro hlong
    cases hids : z.globalIds with
    | none => exact .inr fun i _ => globalId_of_le fun ids h => by rw [hids] at h; cases h
    | some ids =>
      by_cases hsize : z.elements.size ≤ ids.size
      · exact .inl ⟨ids, hids, fun i hi => globalId_of_lt hids hi (by omega)⟩
      · refine .inr fun i hi => ?_
        by_cases hin : i < ids.size
        · rw [globalId_of_lt hids hi hin]
          by_contra hne
          exact hlong ⟨ids, hids, by omega, i, hin, hne⟩
        · exact globalId_of_le fun ids' h => by rw [Option.mem_unique h hids]; omega

theorem matched_of_withGlobalIds {ids : Array Nat} {z' : Zone} (h : z.withGlobalIds ids = .ok z') : z'.Matched := by
  unfold withGlobalIds at h
  split at h
  · cases h
    rintro _ ⟨⟩
    assumption
  · cases h

/-! ## Where numberings come from -/

/-- A document of a zone with lists of elements and ids that have different lengths. -/
def Misnumbered (j : Json) : Prop :=
  ∃ f, Fields.ofJson (columns.map (·.key)) j = .ok f ∧
    ∃ elements ids, f.find? "elt_ids" = some (.array elements) ∧ f.find? "global_ids" = some (.array ids) ∧
      ids.length ≠ elements.length

/-- The two lists of a zone that is read are those found under their keys. -/
theorem lists_of_read {j : Json} (h : form.ofJson j = .ok z) :
    ∃ f, Fields.ofJson (columns.map (·.key)) j = .ok f ∧
      (∃ own, f.find? "elt_ids" = some own ∧ (Form.array .count).ofJson own = .ok z.elements) ∧
      ((∃ global, f.find? "global_ids" = some global ∧
          (Form.nullable (.array .count)).ofJson global = .ok z.globalIds) ∨
        (f.find? "global_ids" = none ∧ z.globalIds = none)) := by
  obtain ⟨f, hf, hfill⟩ := Form.record_eq_ok.1 h
  simp only [columns, List.foldlM_cons, List.foldlM_nil, bind_eq_ok, pure_eq_ok] at hfill
  obtain ⟨z₁, hid, z₂, hname, z₃, hkind, z₄, helements, z₅, hids, rfl⟩ := hfill
  obtain ⟨_, _, _, _, rfl⟩ := Column.fill_of_required hid rfl
  obtain ⟨_, _, _, _, rfl⟩ := Column.fill_of_required hname rfl
  obtain ⟨_, _, _, _, rfl⟩ := Column.fill_of_required hkind rfl
  obtain ⟨own, xs, hown, hxs, rfl⟩ := Column.fill_of_required helements rfl
  rcases Column.fill_eq_ok hids with ⟨global, ids, hglobal, hread, rfl⟩ | ⟨hnone, -, rfl⟩
  · exact ⟨f, hf, ⟨own, hown, hxs⟩, .inl ⟨global, hglobal, hread⟩⟩
  · exact ⟨f, hf, ⟨own, hown, hxs⟩, .inr ⟨hnone, rfl⟩⟩

/-- A numbering that is read matches the elements exactly if the two lists have the same length. -/
theorem matched_iff_of_read {j : Json} (h : form.ofJson j = .ok z) : z.Matched ↔ ¬ Misnumbered j := by
  obtain ⟨f, hf, ⟨own, hown, hxs⟩, hnumbering⟩ := lists_of_read h
  obtain ⟨elements, rfl, hsize⟩ := size_of_array_eq_ok hxs
  have hlists : Misnumbered j ↔ ∃ ids, f.find? "global_ids" = some (.array ids) ∧ ids.length ≠ elements.length := by
    constructor
    · rintro ⟨f', hf', elements', ids, helements', hids, hne⟩
      cases hf.symm.trans hf'
      cases hown.symm.trans helements'
      exact ⟨ids, hids, hne⟩
    · exact fun ⟨ids, hids, hne⟩ => ⟨f, hf, elements, ids, hown, hids, hne⟩
  rw [hlists]
  rcases hnumbering with ⟨global, hglobal, hread⟩ | ⟨hnone, hids⟩
  · rcases nullable_eq_ok hread with ⟨rfl, hids⟩ | ⟨ids, hread, hids⟩
    · simp [Matched, hids, hglobal]
    · obtain ⟨items, rfl, hlength⟩ := size_of_array_eq_ok hread
      simp [Matched, hids, hglobal, hsize, hlength]
  · simp [Matched, hids, hnone]

/-- Zones as they can be obtained, each with the document that its numbering was
read from, if it was read. -/
inductive Obtained : Option Json → Zone → Prop
  | new (id : Nat) (name : String) (kind : ZoneKind) (elements : Array Nat) :
      Obtained none { id, name, kind, elements }
  | numbered {d : Option Json} {z z' : Zone} {ids : Array Nat} (before : Obtained d z)
      (h : z.withGlobalIds ids = .ok z') : Obtained none z'
  | read {d : Json} {z : Zone} (h : form.ofJson d = .ok z) : Obtained (some d) z
  | entry {d : Json} {e : ZoneEntry Float} (h : ZoneEntry.form.ofJson d = .ok e) : Obtained (some d) e.zone
  | registry {d : Json} {r : Registry Float} {kind : ZoneKind} {e : ZoneEntry Float}
      (h : Registry.form.ofJson d = .ok r) (he : e ∈ r.zones kind) : Obtained (some d) e.zone
  | scenario {d : Json} {s : Scenario Float} {kind : ZoneKind} {e : ZoneEntry Float}
      (h : Scenario.form.ofJson d = .ok s) (he : e ∈ s.registry.zones kind) : Obtained (some d) e.zone

/-- The zones of a scenario that is loaded are read from the document in its file. -/
theorem obtained_of_load {file : FileContent} {s : Scenario Float} (h : Scenario.load file = .ok s) {kind : ZoneKind}
    {e : ZoneEntry Float} (he : e ∈ s.registry.zones kind) :
    ∃ text d, file.text = .ok text ∧ Json.parse text = some d ∧ Obtained (some d) e.zone := by
  obtain ⟨text, htext, h⟩ := bind_eq_ok.1 h
  obtain ⟨s', hparse, h⟩ := bind_eq_ok.1 h
  obtain ⟨-, -, h⟩ := bind_eq_ok.1 h
  cases pure_eq_ok.1 h
  obtain ⟨d, hd, hread⟩ := Form.parse_eq_ok.1 (mapError_eq_ok.1 hparse)
  exact ⟨text, d, htext, hd, .scenario hread he⟩

/-- A zone that is read, alone or inside another document, is read from a part of it. -/
theorem Obtained.part {d : Json} (h : Obtained (some d) z) : ∃ j, d.PartOf j ∧ form.ofJson j = .ok z := by
  have hentry {j : Json} {e : ZoneEntry Float} (hpart : d.PartOf j) (hread : ZoneEntry.form.ofJson j = .ok e) :
      ∃ j, d.PartOf j ∧ form.ofJson j = .ok e.zone := by
    obtain ⟨i, hinner, hzone⟩ := ZoneEntry.zone_of_read hread
    exact ⟨i, hpart.trans hinner, hzone⟩
  cases h with
  | read hread => exact ⟨d, .self, hread⟩
  | entry hread => exact hentry .self hread
  | registry hread he =>
    obtain ⟨j, hpart, hread⟩ := Registry.readIn_of_read hread _ _ he
    exact hentry hpart hread
  | scenario hread he =>
    obtain ⟨j, hpart, hread⟩ := Scenario.readIn_of_read hread _ _ he
    exact hentry hpart hread

theorem Obtained.matched (h : Obtained none z) : z.Matched := by
  cases h with
  | new => rintro _ ⟨⟩
  | numbered _ hnumbered => exact matched_of_withGlobalIds hnumbered

/-- The numbering of a zone has one id per element unless it was read where it has
not. With one id per element, the ids over all ranks are all from the numbering; they
are from both lists only where the numbering is too short. -/
theorem numbering_matches {d : Option Json} (h : Obtained d z) :
    (z.Matched ↔ ∀ doc ∈ d, ∀ j, doc.PartOf j → form.ofJson j = .ok z → ¬ Misnumbered j) ∧
      (z.Matched → z.Uniform) ∧
      (z.Uniform ↔ ¬ z.RunsOut) := by
  refine ⟨⟨fun hmatched doc _ j _ hread => (matched_iff_of_read hread).1 hmatched, fun hread => ?_⟩,
    fun hmatched => ?_, uniform_iff⟩
  · cases d with
    | none => exact h.matched
    | some doc =>
      obtain ⟨j, hpart, hj⟩ := h.part
      exact (matched_iff_of_read hj).2 (hread doc rfl j hpart hj)
  · rw [uniform_iff]
    rintro ⟨ids, hids, hshort, -⟩
    exact hshort.ne (hmatched ids hids)

/-! ## A numbering that is too short -/

/-- Two elements, and one id. -/
def shortDocument : Json := .ofMembers [
  ("id", .ofNat 3), ("name", .ofString "inlet"), ("kind", .ofString "BoundaryFaces"),
  ("elt_ids", .array [.ofNat 4, .ofNat 9]), ("global_ids", .array [.ofNat 104])]

def short : Zone :=
  { id := 3, name := "inlet", kind := .boundary, elements := #[4, 9], globalIds := some #[104] }

theorem read_short : form.ofJson shortDocument = .ok short := rfl

/-- The document is read, and the zone has one id of each kind. -/
theorem short_is_mixed :
    Obtained (some shortDocument) short ∧ ¬ short.Matched ∧ ¬ short.Uniform ∧
      short.globalId 0 = some 104 ∧ short.globalId 1 = some 9 := by
  refine ⟨.read read_short, fun h => ?_, fun h => ?_, rfl, rfl⟩
  · exact absurd (h #[104] rfl) (by decide)
  · exact uniform_iff.1 h ⟨#[104], rfl, by decide, 0, by decide, by decide⟩

/-- The numbering that the document has is found out, and one given in its place matches. -/
theorem numbering_matches_renumbered :
    (∃ j, shortDocument.PartOf j ∧ form.ofJson j = .ok short ∧ Misnumbered j) ∧
      ∃ z, short.withGlobalIds #[104, 109] = .ok z ∧ Obtained none z ∧ z.Matched ∧ z.Uniform := by
  have hread : Obtained (some shortDocument) short := .read read_short
  constructor
  · by_contra hnone
    have hshort : short.Matched := (numbering_matches hread).1.2 fun doc hdoc j hpart hj hmisnumbered =>
      hnone ⟨j, Option.mem_some.1 hdoc ▸ hpart, hj, hmisnumbered⟩
    exact absurd (hshort #[104] rfl) (by decide)
  · have hids : short.withGlobalIds #[104, 109] = .ok { short with globalIds := some #[104, 109] } := rfl
    obtain ⟨hmatched, huniform, -⟩ := numbering_matches (.numbered hread hids)
    exact ⟨_, hids, .numbered hread hids, hmatched.2 nofun, huniform (hmatched.2 nofun)⟩

end Zone
end Inflow
