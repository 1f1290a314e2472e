namespace CodeBuffer

/-- Values by id, in the order of the ids. -/
structure Registry (α : Type) where
  entries : List (String × α)

namespace Registry

variable {α : Type}

def empty : Registry α := ⟨[]⟩

/-- Puts an entry in its place, over an older one of the same id. -/
def insertSorted (id : String) (a : α) : List (String × α) → List (String × α)
  | [] => [(id, a)]
  | (k, b) :: rest =>
    if k < id then (k, b) :: insertSorted id a rest
    else if k = id then (id, a) :: rest
    else (id, a) :: (k, b) :: rest

def insert (r : Registry α) (id : String) (a : α) : Registry α :=
  ⟨insertSorted id a r.entries⟩

def get? (r : Registry α) (id : String) : Option α := r.entries.lookup id

def erase (r : Registry α) (id : String) : Registry α := ⟨r.entries.filter (·.1 != id)⟩

def contains (r : Registry α) (id : String) : Bool := r.entries.any (·.1 == id)

def ids (r : Registry α) : List String := r.entries.map (·.1)

end Registry

end CodeBuffer
