import TypeIndex.CttiTypeIndex
import TypeIndex.RuntimeCast.Registration

/-!
# Classes of one name

Without run-time type information indices compare the raw names of classes, and classes
of one name in anonymous namespaces of different modules collapse. A search may then end
in an object of another class, and does for some class looked for exactly when a class
that the registrations lead to shares its name with another one.
-/

namespace TypeIndex

open CMemory CxxObject

namespace Registrations

variable {Class Index : Type*} [DecidableEq Class] {H : Hierarchy Class}
  {R : Registrations H Index} {T U : Class} {self p : ObjectRef H} {idx : Index}

/-- The search depends on the answers of the operator `==` only. -/
theorem boostTypeIndexFindInstance_congr {idx' : Index}
    (h : ∀ c, R.equal idx (R.typeId c) = R.equal idx' (R.typeId c)) :
    R.boostTypeIndexFindInstance idx self = R.boostTypeIndexFindInstance idx' self := by
  induction hdepth : H.declared self.cls using Nat.strongRecOn generalizing self with
  | ind depth ih =>
    have hlist : ∀ bases (hbases : ∀ b ∈ bases, b ∈ R.listed self.cls),
        R.findInstance idx self bases hbases = R.findInstance idx' self bases hbases := by
      intro bases hbases
      induction bases with
      | nil => rw [findInstance, findInstance]
      | cons b bases ihbases =>
        rw [findInstance, findInstance,
          ih _ (hdepth ▸ callee_declared_lt (hbases b List.mem_cons_self)) rfl, ihbases]
    rw [boostTypeIndexFindInstance, boostTypeIndexFindInstance, h, hlist]

/-- The search path ends in a `static_cast` of what the overrider's function returns. -/
theorem runtimeCastImpl_eq {u : ClassPtr H U} {r : ObjectRef H} (hu : u.target = some p)
    (hcall : p.virtualCall R.declares = some r) :
    R.runtimeCastImpl T u false =
      staticCast T (R.boostTypeIndexFindInstance (R.typeId T) r) := by
  unfold runtimeCastImpl
  simp only [hu, callFindInstance_eq hcall]

/-- A `static_cast` is undefined on objects of other classes only. -/
theorem staticCast_eq_wrongClass_iff {found : Option (ObjectRef H)} :
    staticCast T found = .error .wrongClass ↔ ∃ q, found = some q ∧ q.cls ≠ T := by
  cases found with
  | none => simp [staticCast]
  | some q => by_cases hcls : q.cls = T <;> simp [staticCast, hcls]

/-- A `static_cast` gives a null pointer for a null pointer only. -/
theorem staticCast_null_iff {found : Option (ObjectRef H)} :
    (∃ v, staticCast T found = .ok v ∧ v.target = none) ↔ found = none := by
  cases found with
  | none => exact iff_of_true ⟨.null H T, rfl, rfl⟩ rfl
  | some q => by_cases hcls : q.cls = T <;> simp [staticCast, hcls, ObjectRef.toPtr]

/-- Where indices compare names, as they do in builds without run-time type information,
classes of one name collapse. A search fails exactly for the names of no class that the
overrider leads to, and no search through the pointer ends in an object of a class other
than the one asked for exactly when these classes share their names with no other. -/
theorem runtimeCastImpl_named {Name : Type*} (R : Registrations H Index) (name : Class → Name)
    (hnamed : R.Named name) {u : ClassPtr H U} {r : ObjectRef H} (hu : u.target = some p)
    (hcall : p.virtualCall R.declares = some r) :
    (∀ T, (∃ v, R.runtimeCastImpl T u false = .ok v ∧ v.target = none) ↔
      ∀ c, R.Reaches r.cls c → name c ≠ name T) ∧
    ((∀ T, R.runtimeCastImpl T u false ≠ .error .wrongClass) ↔
      ∀ c, R.Reaches r.cls c → ∀ T, name T = name c → T = c) := by
  constructor
  · intro T
    rw [runtimeCastImpl_eq hu hcall, staticCast_null_iff,
      boostTypeIndexFindInstance_eq_none_iff hnamed]
  · constructor
    · intro hright c hreaches T hname
      have hfinds : ∀ T q, R.boostTypeIndexFindInstance (R.typeId T) r = some q → q.cls = T := by
        intro T q hq
        by_contra hcls
        refine hright T ?_
        rw [runtimeCastImpl_eq hu hcall]
        exact staticCast_eq_wrongClass_iff.mpr ⟨q, hq, hcls⟩
      have hsame : R.boostTypeIndexFindInstance (R.typeId T) r =
          R.boostTypeIndexFindInstance (R.typeId c) r :=
        boostTypeIndexFindInstance_congr fun d => by
          rw [Bool.eq_iff_iff, hnamed, hnamed, hname]
      cases hfound : R.boostTypeIndexFindInstance (R.typeId c) r with
      | none =>
        exact absurd rfl ((boostTypeIndexFindInstance_eq_none_iff hnamed).mp hfound c hreaches)
      | some q => exact (hfinds T q (hsame.trans hfound)).symm.trans (hfinds c q hfound)
    · intro hdistinct T hwrong
      rw [runtimeCastImpl_eq hu hcall] at hwrong
      obtain ⟨q, hq, hcls⟩ := staticCast_eq_wrongClass_iff.mp hwrong
      obtain ⟨-, -, hname, hreaches⟩ := boostTypeIndexFindInstance_eq_some hnamed hq
      exact hcls (hdistinct _ hreaches T hname.symm).symm

/-- Indices made from the names that a compiler prints compare these names. -/
theorem named_rawName {m : CharMemory} (R : Registrations H (CttiTypeIndex m)) (P : Platform)
    (S : CttiSkip) (hash : List UInt8 → ℕ) (hequal : R.equal = (CttiTypeIndex.facade P S hash).eq) :
    R.Named fun c => (R.typeId c).rawName.chars := by
  intro a b
  rw [hequal]
  change (R.typeId a).equal P (R.typeId b) = true ↔ _
  rw [CttiTypeIndex.equal, decide_eq_true_eq, constexprStrcmp_eq_zero]

end Registrations

/-! ### Two classes in anonymous namespaces -/

/-- The names of a class `base` and of two classes in anonymous namespaces, which are alike. -/
def anonymousMemory : CharMemory := fun block =>
  (if block = 0 then literal "base]" else literal "{anonymous}::user_defined]") ++ [0]

/-- The generous registrations, with indices for these names. -/
def anonymousRegistrations : Registrations linearHierarchy (CttiTypeIndex anonymousMemory) :=
  { generousRegistrations with
    typeId := fun
      | .base => ⟨⟨⟨0, 0⟩, by decide⟩⟩
      | .derived => ⟨⟨⟨1, 0⟩, by decide⟩⟩
      | .leaf => ⟨⟨⟨2, 0⟩, by decide⟩⟩
    equal := (CttiTypeIndex.facade ⟨.signed, default, .constexpr14⟩ (skip .gcc ⟨0, 0⟩)
      List.length).eq }

/-- The condition for casts through a pointer to a `leaf`, whose name is that of `derived`. -/
theorem runtimeCastImpl_named_anonymous :
    let R := anonymousRegistrations
    let u : ClassPtr linearHierarchy .leaf := leafObject.toPtr rfl
    let name := fun c => (R.typeId c).rawName.chars
    (∀ T, (∃ v, R.runtimeCastImpl T u false = .ok v ∧ v.target = none) ↔
      ∀ c, R.Reaches leafObject.cls c → name c ≠ name T) ∧
    ((∀ T, R.runtimeCastImpl T u false ≠ .error .wrongClass) ↔
      ∀ c, R.Reaches leafObject.cls c → ∀ T, name T = name c → T = c) :=
  anonymousRegistrations.runtimeCastImpl_named _
    (anonymousRegistrations.named_rawName _ (skip .gcc ⟨0, 0⟩) List.length rfl) rfl
    (ObjectRef.virtualCall_mostDerived rfl (ObjectRef.lookup_self rfl))

end TypeIndex
