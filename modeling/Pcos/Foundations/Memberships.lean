import Mathlib.Data.List.Basic
import Mathlib.Data.List.Nodup

/-!
# Foundations/Memberships — groups whose members have roles

    found a group, as its owner ──▸ join ──▸ change a role ──▸ leave

Two properties are kept where an owner brings in an owner, and the last one neither goes nor is put
into another role: every group has an owner (`Owned.step`), and only an owner makes one
(`Step.granted`).
-/

namespace Foundations.Memberships

/-- A row of the table of members. -/
structure Member (ι κ υ ρ : Type*) where
  id : ι
  group : κ
  user : υ
  role : ρ

structure State (ι κ υ ρ : Type*) where
  groups : List κ
  members : List (Member ι κ υ ρ)

variable {ι κ υ ρ : Type*} {owner : ρ} {caller : υ} {s s' : State ι κ υ ρ}

/-- Every group has an owner. -/
def Owned (owner : ρ) (s : State ι κ υ ρ) : Prop :=
  ∀ g ∈ s.groups, ∃ m ∈ s.members, m.group = g ∧ m.role = owner

/-- The user is an owner of the group. -/
def Owns (owner : ρ) (s : State ι κ υ ρ) (user : υ) (g : κ) : Prop :=
  ∃ m ∈ s.members, m.user = user ∧ m.group = g ∧ m.role = owner

/-- The group has an owner in another row. -/
def OwnedBesides (owner : ρ) (s : State ι κ υ ρ) (id : ι) (g : κ) : Prop :=
  ∃ m ∈ s.members, m.id ≠ id ∧ m.group = g ∧ m.role = owner

/-- An owner of the group in this state is one of before, or was made one by an owner, or has founded
the group. -/
def Granted (owner : ρ) (caller : υ) (s s' : State ι κ υ ρ) : Prop :=
  ∀ m' ∈ s'.members, m'.role = owner →
    (∃ m ∈ s.members, m.id = m'.id ∧ m.group = m'.group ∧ m.role = owner) ∨
      Owns owner s caller m'.group ∨ m'.group ∉ s.groups

section Steps

variable [DecidableEq ι]

/-- The rows after one is put into another role. -/
def assign (id : ι) (role : ρ) (members : List (Member ι κ υ ρ)) : List (Member ι κ υ ρ) :=
  members.map fun m => if m.id = id then { m with role := role } else m

/-- What a request of the caller does. -/
inductive Step (owner : ρ) (caller : υ) (s : State ι κ υ ρ) : State ι κ υ ρ → Prop
  | refuse : Step owner caller s s
  | found {m : Member ι κ υ ρ} : m.role = owner → m.group ∉ s.groups →
    Step owner caller s { groups := s.groups ++ [m.group], members := s.members ++ [m] }
  | join {m : Member ι κ υ ρ} : (m.role = owner → Owns owner s caller m.group) →
    Step owner caller s { s with members := s.members ++ [m] }
  | assign {id role} :
    (∀ m ∈ s.members, m.id = id → Owns owner s caller m.group ∧
      (role ≠ owner → m.role = owner → OwnedBesides owner s id m.group)) →
    Step owner caller s { s with members := assign id role s.members }
  | leave {id} : (∀ m ∈ s.members, m.id = id → m.role = owner → OwnedBesides owner s id m.group) →
    Step owner caller s { s with members := s.members.filter fun m => m.id ≠ id }

end Steps

theorem Granted.refl (s : State ι κ υ ρ) : Granted owner caller s s :=
  fun m hm hrole => Or.inl ⟨m, hm, rfl, rfl, hrole⟩

theorem owned_append (h : Owned owner s) (m : Member ι κ υ ρ) :
    Owned owner { s with members := s.members ++ [m] } := by
  intro g hg
  obtain ⟨m', hm', hm'g⟩ := h g hg
  exact ⟨m', List.mem_append_left _ hm', hm'g⟩

theorem owned_found (h : Owned owner s) {m : Member ι κ υ ρ} (hrole : m.role = owner) :
    Owned owner { groups := s.groups ++ [m.group], members := s.members ++ [m] } := by
  intro g hg
  rcases List.mem_append.mp hg with hg | hg
  · exact owned_append h m g hg
  · exact ⟨m, List.mem_append_right _ List.mem_cons_self, (List.mem_singleton.mp hg).symm, hrole⟩

theorem granted_append {m : Member ι κ υ ρ} {groups : List κ}
    (h : m.role = owner → Owns owner s caller m.group ∨ m.group ∉ s.groups) :
    Granted owner caller s { groups := groups, members := s.members ++ [m] } := by
  intro m' hm' hrole
  rcases List.mem_append.mp hm' with hm' | hm'
  · exact Granted.refl s m' hm' hrole
  · rw [List.mem_singleton.mp hm'] at hrole ⊢
    exact Or.inr (h hrole)

variable [DecidableEq ι]

theorem mem_assign {id : ι} {role : ρ} {members : List (Member ι κ υ ρ)} {m' : Member ι κ υ ρ}
    (hm' : m' ∈ assign id role members) :
    ∃ m ∈ members, m.id = m'.id ∧ m.group = m'.group ∧
      ((m.id = id ∧ m'.role = role) ∨ (m.id ≠ id ∧ m'.role = m.role)) := by
  obtain ⟨m, hm, rfl⟩ := List.mem_map.mp hm'
  refine ⟨m, hm, ?_⟩
  by_cases hid : m.id = id
  · rw [if_pos hid]
    exact ⟨rfl, rfl, Or.inl ⟨hid, rfl⟩⟩
  · rw [if_neg hid]
    exact ⟨rfl, rfl, Or.inr ⟨hid, rfl⟩⟩

theorem assign_mem {id : ι} {role : ρ} {members : List (Member ι κ υ ρ)} {m : Member ι κ υ ρ}
    (hm : m ∈ members) (hid : m.id ≠ id) : m ∈ assign id role members := by
  have hmem : (if m.id = id then { m with role := role } else m) ∈ assign id role members :=
    List.mem_map_of_mem hm
  rwa [if_neg hid] at hmem

/-- **Every group keeps an owner.** -/
theorem Owned.step (h : Owned owner s) (hs : Step owner caller s s') : Owned owner s' := by
  cases hs with
  | refuse => exact h
  | found hrole => exact owned_found h hrole
  | @join m => exact owned_append h m
  | @assign id role hassign =>
    intro g hg
    obtain ⟨m, hm, hgroup, hrole⟩ := h g hg
    by_cases hid : m.id = id
    · by_cases howner : role = owner
      · refine ⟨{ m with role := role }, ?_, hgroup, howner⟩
        have hmem : (if m.id = id then { m with role := role } else m) ∈ assign id role s.members :=
          List.mem_map_of_mem hm
        rwa [if_pos hid] at hmem
      · obtain ⟨m', hm', hid', hgroup', hrole'⟩ := (hassign m hm hid).2 howner hrole
        exact ⟨m', assign_mem hm' hid', hgroup'.trans hgroup, hrole'⟩
    · exact ⟨m, assign_mem hm hid, hgroup, hrole⟩
  | @leave id hleave =>
    intro g hg
    obtain ⟨m, hm, hgroup, hrole⟩ := h g hg
    by_cases hid : m.id = id
    · obtain ⟨m', hm', hid', hgroup', hrole'⟩ := hleave m hm hid hrole
      exact ⟨m', List.mem_filter.mpr ⟨hm', decide_eq_true hid'⟩, hgroup'.trans hgroup, hrole'⟩
    · exact ⟨m, List.mem_filter.mpr ⟨hm, decide_eq_true hid⟩, hgroup, hrole⟩

/-- **Only an owner makes an owner.** -/
theorem Step.granted (hs : Step owner caller s s') : Granted owner caller s s' := by
  cases hs with
  | refuse => exact Granted.refl s
  | found hrole hnew => exact granted_append fun _ => Or.inr hnew
  | join hjoin => exact granted_append fun hrole => Or.inl (hjoin hrole)
  | @assign id role hassign =>
    intro m' hm' hrole
    obtain ⟨m, hm, hid, hgroup, hset | hkept⟩ := mem_assign hm'
    · exact Or.inr (Or.inl (hgroup ▸ (hassign m hm hset.1).1))
    · exact Or.inl ⟨m, hm, hid, hgroup, hkept.2.symm.trans hrole⟩
  | leave hleave => exact fun m' hm' => Granted.refl s m' (List.mem_of_mem_filter hm')

end Foundations.Memberships
