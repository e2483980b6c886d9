import DualStore.Proofs.Collections
import DualStore.Proofs.Outcomes
import DualStore.Space.Registry

/-! When calls to the registry succeed, and which spaces there are afterwards. -/

namespace DualStore
namespace Registry

variable {r r' : Registry} {name other createdAt : String} {store : Store}

theorem checkName_eq_ok : checkName name = .ok () ↔ isSpaceName name = true := by
  unfold checkName checkSpaceName
  split
  · exact iff_of_true rfl ‹_›
  · exact iff_of_false nofun ‹_›

theorem find_eq_ok {space : Space} : r.find name = .ok space ↔ r.spaces.get? name = some space := by
  unfold find
  split
  · next hget => rw [hget, Except.ok.injEq, Option.some.injEq]
  · next hget => rw [hget]; exact iff_of_false nofun nofun

theorem contains_iff : r.contains name = true ↔ ∃ space, r.spaces.get? name = some space :=
  SortedMap.contains_iff

theorem get_eq_ok : r.get name = .ok store ↔
    isSpaceName name = true ∧ ∃ info, r.spaces.get? name = some ⟨info, store⟩ := by
  rw [get, bind_eq_ok]
  constructor
  · rintro ⟨⟨⟩, hname, h⟩
    obtain ⟨⟨info, _⟩, hfind, hstore⟩ := bind_eq_ok.mp h
    obtain rfl := pure_eq_ok.mp hstore
    exact ⟨checkName_eq_ok.mp hname, info, find_eq_ok.mp hfind⟩
  · rintro ⟨hname, info, hget⟩
    exact ⟨(), checkName_eq_ok.mpr hname, bind_eq_ok.mpr ⟨_, find_eq_ok.mpr hget, rfl⟩⟩

theorem contains_of_get (h : r.get name = .ok store) : r.contains name = true := by
  obtain ⟨-, info, hget⟩ := get_eq_ok.mp h
  exact contains_iff.mpr ⟨_, hget⟩

theorem create_eq_ok : r.create name createdAt = .ok r' ↔ isSpaceName name = true ∧
    r.contains name = false ∧ r' = ⟨r.spaces.insert name ⟨⟨name, createdAt⟩, {}⟩⟩ := by
  rw [create, bind_eq_ok]
  constructor
  · rintro ⟨⟨⟩, hname, h⟩
    by_cases hc : r.contains name = true
    · rw [if_pos hc] at h
      exact absurd h nofun
    · rw [if_neg hc] at h
      exact ⟨checkName_eq_ok.mp hname, Bool.not_eq_true _ ▸ hc, (pure_eq_ok.mp h).symm⟩
  · rintro ⟨hname, hc, rfl⟩
    refine ⟨(), checkName_eq_ok.mpr hname, ?_⟩
    rw [hc]
    rfl

theorem remove_eq_ok : r.remove name = .ok r' ↔ isSpaceName name = true ∧
    r.contains name = true ∧ r' = ⟨r.spaces.erase name⟩ := by
  rw [remove, bind_eq_ok]
  constructor
  · rintro ⟨⟨⟩, hname, h⟩
    obtain ⟨space, hfind, h⟩ := bind_eq_ok.mp h
    exact ⟨checkName_eq_ok.mp hname, contains_iff.mpr ⟨space, find_eq_ok.mp hfind⟩,
      (pure_eq_ok.mp h).symm⟩
  · rintro ⟨hname, hc, rfl⟩
    obtain ⟨space, hget⟩ := contains_iff.mp hc
    exact ⟨(), checkName_eq_ok.mpr hname, bind_eq_ok.mpr ⟨space, find_eq_ok.mpr hget, rfl⟩⟩

theorem get?_put : (r.put name store).spaces.get? other =
    if other = name then (r.spaces.get? name).map (fun space => { space with store })
    else r.spaces.get? other := by
  unfold put
  split
  next space hget => rw [SortedMap.get?_insert, hget]; rfl
  next hget =>
    split
    next he => rw [he, hget]; rfl
    next => rfl

theorem get_put {store' : Store} (h : r.get name = .ok store) :
    (r.put name store').get name = .ok store' := by
  obtain ⟨hname, info, hget⟩ := get_eq_ok.mp h
  refine get_eq_ok.mpr ⟨hname, info, ?_⟩
  rw [get?_put, if_pos rfl, hget]
  rfl

theorem contains_put : (r.put name store).contains other = r.contains other := by
  rw [contains, contains, SortedMap.contains, SortedMap.contains, get?_put]
  split
  next he => rw [he, Option.isSome_map]
  next => rfl

end Registry
end DualStore
