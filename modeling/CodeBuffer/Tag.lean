import CodeBuffer.Region.Basic

namespace CodeBuffer

/-- A tag is named by its place in the order of creation. -/
abbrev TagId := Nat

/-- A named marker over ranges of a text. Its look is the style that the scheme has under
`style`. -/
structure Tag where
  name : String
  style : Option String
  ranges : Region
  deriving DecidableEq, Repr

/-- The tags of a document in order of creation, with an index of their names that agrees with
them. -/
@[ext] structure TagTable where
  tags : List Tag
  byName : List (String × TagId)
  indexed : ∀ name, byName.lookup name = tags.findIdx? (·.name == name)
  deriving DecidableEq, Repr

namespace TagTable

/-- A name is found by the names alone. -/
theorem findIdx?_name (tags : List Tag) (name : String) :
    tags.findIdx? (·.name == name) = (tags.map (·.name)).findIdx? (· == name) := by
  rw [List.findIdx?_map]
  rfl

theorem map_name_modify (g : Tag → Tag) (hg : ∀ tag, (g tag).name = tag.name) (tags : List Tag)
    (id : TagId) : (tags.modify id g).map (·.name) = tags.map (·.name) := by
  refine List.ext_getElem? fun i => ?_
  rw [List.getElem?_map, List.getElem?_map, List.getElem?_modify]
  cases tags[i]? with
  | none => rfl
  | some tag =>
    refine congrArg some ?_
    change (if id = i then g tag else tag).name = tag.name
    split
    · exact hg tag
    · rfl

theorem map_name_mapIdx (g : TagId → Tag → Tag) (hg : ∀ id tag, (g id tag).name = tag.name)
    (tags : List Tag) : (tags.mapIdx g).map (·.name) = tags.map (·.name) := by
  refine List.ext_getElem? fun i => ?_
  rw [List.getElem?_map, List.getElem?_map, List.getElem?_mapIdx, Option.map_map]
  exact congrArg (Option.map · tags[i]?) (funext (hg i))

def empty : TagTable := ⟨[], [], fun _ => rfl⟩

/-- The table with other tags of the same names, which the index is kept for. -/
def withTags (t : TagTable) (tags : List Tag) (h : tags.map (·.name) = t.tags.map (·.name)) :
    TagTable where
  tags
  byName := t.byName
  indexed name := by rw [t.indexed, findIdx?_name, findIdx?_name, h]

/-- The table with a tag more, which is put into the index under its name. -/
def append (t : TagTable) (tag : Tag) : TagTable where
  tags := t.tags ++ [tag]
  byName := t.byName ++ [(tag.name, t.tags.length)]
  indexed name := by
    rw [List.lookup_append, t.indexed, List.findIdx?_append]
    refine congrArg (Option.or _) ?_
    by_cases h : tag.name = name
    · simp [h]
    · simp [h, List.lookup_cons, beq_eq_false_iff_ne.2 (Ne.symm h)]

def lookup? (t : TagTable) (name : String) : Option TagId := t.byName.lookup name

@[simp] theorem tags_withTags (t : TagTable) (tags : List Tag)
    (h : tags.map (·.name) = t.tags.map (·.name)) : (t.withTags tags h).tags = tags := rfl

@[simp] theorem tags_append (t : TagTable) (tag : Tag) : (t.append tag).tags = t.tags ++ [tag] :=
  rfl

/-- The index finds the first tag of that name. -/
theorem lookup?_eq (t : TagTable) (name : String) :
    t.lookup? name = t.tags.findIdx? (·.name == name) := t.indexed name

/-- The tag of that name, made if need be. A style that is given replaces the old one. -/
def create (t : TagTable) (name : String) (style : Option String) : TagId × TagTable :=
  match t.lookup? name with
  | some id =>
    match style with
    | some s =>
      (id, t.withTags (t.tags.modify id fun tag => { tag with style := some s })
        (map_name_modify _ (by intro; rfl) t.tags id))
    | none => (id, t)
  | none => (t.tags.length, t.append ⟨name, style, .empty⟩)

def has (t : TagTable) (id : TagId) : Bool := decide (id < t.tags.length)

def name? (t : TagTable) (id : TagId) : Option String := t.tags[id]?.map (·.name)

def style? (t : TagTable) (id : TagId) : Option String := t.tags[id]?.bind (·.style)

def ranges? (t : TagTable) (id : TagId) : Option Region := t.tags[id]?.map (·.ranges)

/-- Changes the ranges of one tag; an unknown id changes nothing. -/
def modifyRanges (t : TagTable) (id : TagId) (f : Region → Region) : TagTable :=
  t.withTags (t.tags.modify id fun tag => { tag with ranges := f tag.ranges })
    (map_name_modify _ (by intro; rfl) t.tags id)

/-- Adds to the ranges of every tag what is listed for it. -/
def addRanges (t : TagTable) (placed : List (TagId × Interval)) : TagTable :=
  t.withTags (t.tags.mapIdx fun id tag =>
    { tag with ranges := tag.ranges.addAll ((placed.filter (·.1 == id)).map (·.2)) })
    (map_name_mapIdx _ (by intros; rfl) t.tags)

def mapRanges (t : TagTable) (f : Region → Region) : TagTable :=
  t.withTags (t.tags.map fun tag => { tag with ranges := f tag.ranges }) (by simp)

/-- The tags over an offset, in order of creation. -/
def coverAt (t : TagTable) (o : Nat) : List TagId :=
  (List.range t.tags.length).filter fun id => (t.tags[id]?).any (·.ranges.contains o)

@[simp] theorem ranges?_modifyRanges (t : TagTable) (id other : TagId) (f : Region → Region) :
    (t.modifyRanges id f).ranges? other =
      if id = other then (t.ranges? other).map f else t.ranges? other := by
  unfold modifyRanges ranges?
  by_cases h : id = other
  · subst h
    simp [Function.comp_def]
  · simp [h]

end TagTable
end CodeBuffer
