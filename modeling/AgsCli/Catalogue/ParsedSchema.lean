import AgsCli.Catalogue.BodyFields
import AgsCli.Dispatch.Execute

/-! # The schema of a spec

`groupedSchema` groups operations by resource, method and scope, with no map in between. The
parser computes it from the operations that survive when no two have one key. -/
namespace ParsedSchema

open HashMaps HashMap Grouping CatalogueTypes OpenApi CatalogueParser

section Grouped

/-- Where an operation belongs. -/
def contractKey (p : ParsedOperation) : String × String × String × Nat :=
  (p.resource, p.methodName, p.scope, p.apiVersion)

variable (manifest : Manifest) (serviceName : String)

end Grouped

/-- What the operations kept from a spec with distinct keys have in common. -/
structure Consistent (operations : List ParsedOperation) : Prop where
  versions : ∀ p ∈ operations, p.schema.apiVersion = p.apiVersion
  apart : (operations.map contractKey).Nodup

variable {operations : List ParsedOperation}

theorem Consistent.group {κ : Type} [DecidableEq κ] (h : Consistent operations)
    (key : ParsedOperation → κ) (k : κ) : Consistent (group key operations k) := by
  refine ⟨fun p hp => h.versions p (mem_group.mp hp).1, ?_⟩
  exact h.apart.sublist (List.filter_sublist.map contractKey)

theorem Consistent.perm (h : Consistent operations) {other : List ParsedOperation}
    (hperm : operations.Perm other) : Consistent other :=
  ⟨fun p hp => h.versions p (hperm.mem_iff.mpr hp), (hperm.map contractKey).nodup_iff.mp h.apart⟩

section Scopes

end Scopes

section Resources

variable (order : HashOrder)

end Resources

end ParsedSchema
