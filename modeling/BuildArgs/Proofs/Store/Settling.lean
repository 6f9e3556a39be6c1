import BuildArgs.Proofs.Store.Batch

/-! How the scope of a toolchain comes about when nobody else has touched its context: it
depends on the host, on the values given from outside and on the toolchain itself. -/

namespace BuildArgs

namespace ToolchainSpec

variable (spec : ToolchainSpec) (host : Host) (active : NameMap Value)

/-- The value that an argument takes: the toolchain's, or one given from outside, or its
default. -/
def chosen (name : String) (default : Value) : Value :=
  ((spec.overrides.get? name).or (active.get? name)).getD default

def freshScope : Scope :=
  Store.applyDeclared spec.overrides host.systemDefaults
    (Store.applyDeclared active host.systemDefaults
      (Store.seedScope host.systemDefaults (.new spec.id)))

def settle (scope : Scope) (entry : String × Value) : Scope :=
  let value := spec.chosen active entry.1 entry.2
  (scope.set entry.1 value value.origin).markUsed entry.1

def scopeAfter (entries : List (String × Value)) : Scope :=
  entries.foldl (spec.settle active) (spec.freshScope host active)

def rootScope : Scope := spec.scopeAfter host active spec.entries

end ToolchainSpec

namespace Store

theorem toolchain_applyDeclared (values declared : NameMap Value) (scope : Scope) :
    (applyDeclared values declared scope).toolchain = scope.toolchain := by
  unfold applyDeclared
  induction values.entries generalizing scope with
  | nil => rfl
  | cons entry rest ih =>
    rw [List.foldl_cons, ih]
    split
    · rfl
    · rfl

theorem toolchain_seedScope (defaults : NameMap Value) (scope : Scope) :
    (seedScope defaults scope).toolchain = scope.toolchain := by
  unfold seedScope
  induction defaults.entries generalizing scope with
  | nil => rfl
  | cons entry rest ih =>
    rw [List.foldl_cons, ih]
    simp

@[simp] theorem toolchain_setup (store : Store) (scope : Scope) (overrides : NameMap Value) :
    (store.setup scope overrides).2.toolchain = scope.toolchain := by
  simp [setup, toolchain_applyDeclared, toolchain_seedScope]

theorem setup_scope {store : Store} {spec : ToolchainSpec}
    (fresh : store.declared.get? spec.id = none) :
    (store.setup (.new spec.id) spec.overrides).2 = spec.freshScope store.host store.active := by
  simp [setup, declaredIn, Scope.new, fresh, ToolchainSpec.freshScope]

theorem resolve_eq_chosen {store : Store} {spec : ToolchainSpec}
    (brought : store.toolchainOverrides.get? spec.id = some spec.overrides) (name : String)
    (default : Value) :
    store.resolve spec.id name default = spec.chosen store.active name default := by
  simp [resolve, ToolchainSpec.chosen, brought]

theorem resolveEntry_eq_settle {store : Store} {spec : ToolchainSpec} {scope : Scope}
    (own : scope.toolchain = spec.id)
    (brought : store.toolchainOverrides.get? spec.id = some spec.overrides)
    (entry : String × Value) :
    store.resolveEntry scope entry = spec.settle store.active scope entry := by
  simp only [resolveEntry, own, resolve_eq_chosen brought, ToolchainSpec.settle]

end Store

namespace ToolchainSpec

variable (spec : ToolchainSpec) (host : Host) (active : NameMap Value)

@[simp] theorem toolchain_freshScope : (spec.freshScope host active).toolchain = spec.id := by
  rw [freshScope, Store.toolchain_applyDeclared, Store.toolchain_applyDeclared,
    Store.toolchain_seedScope]
  rfl

@[simp] theorem toolchain_foldl_settle (entries : List (String × Value)) (scope : Scope) :
    (entries.foldl (spec.settle active) scope).toolchain = scope.toolchain := by
  induction entries generalizing scope with
  | nil => rfl
  | cons entry rest ih => simp [ih, settle]

@[simp] theorem toolchain_scopeAfter (entries : List (String × Value)) :
    (spec.scopeAfter host active entries).toolchain = spec.id := by
  simp [scopeAfter]

@[simp] theorem toolchain_rootScope : (spec.rootScope host active).toolchain = spec.id :=
  spec.toolchain_scopeAfter host active spec.entries

theorem scopeAfter_append (entries : List (String × Value)) (entry : String × Value) :
    spec.scopeAfter host active (entries ++ [entry]) =
      spec.settle active (spec.scopeAfter host active entries) entry := by
  simp [scopeAfter]

end ToolchainSpec
end BuildArgs
