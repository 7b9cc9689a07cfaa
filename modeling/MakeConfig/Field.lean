/-! # Fields

Fields of a record that may be left out, as documents of any format give them.
-/

namespace MakeConfig

universe u v

/-- A field read by `read?`, or the usual value if there is none. -/
def fieldOr? {α : Type u} {β : Type v} (fields : List (String × α)) (name : String) (usual : β)
    (read? : α → Option β) : Option β :=
  match fields.lookup name with
  | none => some usual
  | some value => read? value

end MakeConfig
