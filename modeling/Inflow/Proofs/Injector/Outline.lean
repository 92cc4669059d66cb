import Inflow.Injector.Step
/-!
# What the ranks share

Every rank has its own part of each zone: its own elements, their numbers, and
profiles that belong to them. The outline of a registry is what is left without
these, and it decides all that the ranks must agree on beforehand: which sets
there are and when they are due, how many particles they ask for, and whether
the setup is faulty.
-/

namespace Inflow

variable {α : Type}

/-- The zone without the elements that a rank has of it. -/
def Zone.outline (z : Zone) : Zone := { z with elements := #[], globalIds := none }

/-- The set without its profile. -/
def InjectionSet.outline (s : InjectionSet α) : InjectionSet α := { s with profile := none }

def ZoneEntry.outline (e : ZoneEntry α) : ZoneEntry α :=
  { e with zone := e.zone.outline, sets := e.sets.map InjectionSet.outline }

def Request.outline (q : Request α) : Request α := { q with entry := q.entry.outline, set := q.set.outline }

namespace Request

variable {q q' : Request α}

theorem place_eq_of_outline (h : q.outline = q'.outline) : q.place = q'.place := by
  change q.outline.place = q'.outline.place
  rw [h]

theorem count_eq_of_outline (h : q.outline = q'.outline) : q.set.count = q'.set.count := by
  change q.outline.set.count = q'.outline.set.count
  rw [h]

theorem kind_eq_of_outline (h : q.outline = q'.outline) : q.kind = q'.kind := by
  change q.outline.kind = q'.outline.kind
  rw [h]

theorem zoneIndex_eq_of_outline (h : q.outline = q'.outline) : q.zoneIndex = q'.zoneIndex := by
  change q.outline.zoneIndex = q'.outline.zoneIndex
  rw [h]

theorem flowRate_eq_of_outline (h : q.outline = q'.outline) : q.set.flowRate = q'.set.flowRate := by
  change q.outline.set.flowRate = q'.outline.set.flowRate
  rw [h]

theorem isDue_eq_of_outline (h : q.outline = q'.outline) (step start released : Nat) :
    q.set.isDue step start released = q'.set.isDue step start released := by
  change q.outline.set.isDue step start released = q'.outline.set.isDue step start released
  rw [h]

end Request

namespace Registry

/-- The registry without what each rank has of its own. -/
def outline (r : Registry α) : Registry α :=
  { boundary := r.boundary.map ZoneEntry.outline, volume := r.volume.map ZoneEntry.outline }

@[simp] theorem zones_outline (r : Registry α) (kind : ZoneKind) :
    r.outline.zones kind = (r.zones kind).map ZoneEntry.outline := by
  cases kind <;> rfl

theorem requests_outline (r : Registry α) : r.outline.requests = r.requests.map Request.outline := by
  simp only [requests, zones_outline, List.zipIdx_map, List.map_flatMap, List.flatMap_map, List.map_map]
  congr 1
  funext kind
  congr 1
  funext entry
  exact List.map_map

theorem totalRequested_outline (r : Registry α) : r.outline.totalRequested = r.totalRequested := by
  simp only [totalRequested, requests_outline, List.foldl_map]
  rfl

variable {r r' : Registry α}

theorem requests_eq_of_outline (h : r.outline = r'.outline) :
    r.requests.map Request.outline = r'.requests.map Request.outline := by
  rw [← requests_outline, ← requests_outline, h]

theorem totalRequested_eq_of_outline (h : r.outline = r'.outline) : r.totalRequested = r'.totalRequested := by
  rw [← r.totalRequested_outline, h, totalRequested_outline]

end Registry

variable [Scalar α]

theorem InjectionSet.issues_outline (s : InjectionSet α) (m : Model α) : s.outline.issues m = s.issues m := rfl

theorem ZoneEntry.issues_outline (e : ZoneEntry α) (kind : ZoneKind) (m : Model α) :
    e.outline.issues kind m = e.issues kind m := by
  simp only [issues, outline, List.flatMap_map, InjectionSet.issues_outline]
  rfl

theorem Registry.issues_outline (r : Registry α) (m : Model α) : r.outline.issues m = r.issues m := by
  simp only [issues, zones_outline, List.flatMap_map, ZoneEntry.issues_outline]

theorem Registry.issues_eq_of_outline {r r' : Registry α} (h : r.outline = r'.outline) (m : Model α) :
    r.issues m = r'.issues m := by
  rw [← r.issues_outline, h, issues_outline]

end Inflow
