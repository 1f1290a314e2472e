import CodeBuffer.Document.Tagging
import CodeBuffer.Proofs.Upkeep.Engine

namespace CodeBuffer
namespace TagTable

/-- The tag of that name lies on an offset. -/
def Marks (t : TagTable) (n : String) (p : Nat) : Prop :=
  ∃ id r, t.name? id = some n ∧ t.ranges? id = some r ∧ r.contains p = true

/-- No name occurs twice, and no tag lies behind the end of a text. -/
structure Tidy (t : TagTable) (length : Nat) : Prop where
  names : (t.tags.map (·.name)).Nodup
  below : ∀ id r, t.ranges? id = some r → r.Below length

/-- Where the tag of that name lies; nowhere if there is none. -/
def rangesOf (t : TagTable) (n : String) : Region := ((t.lookup? n).bind t.ranges?).getD .empty

/-- The style of the tag of that name. -/
def styleOf? (t : TagTable) (n : String) : Option String := (t.lookup? n).bind t.style?

variable {t u : TagTable} {length p id id' : Nat} {n name : String} {style : Option String}
  {f : Region → Region}

theorem name?_eq (t : TagTable) (id : TagId) : t.name? id = (t.tags.map (·.name))[id]? := by
  rw [name?, List.getElem?_map]

theorem name?_withTags {tags : List Tag} {h : tags.map (·.name) = t.tags.map (·.name)}
    (id : TagId) : (t.withTags tags h).name? id = t.name? id := by
  rw [name?_eq, name?_eq, tags_withTags, h]

theorem Tidy.name?_inj (h : t.Tidy length) (hid : t.name? id = some n)
    (hid' : t.name? id' = some n) : id = id' := by
  rw [name?_eq] at hid hid'
  exact (List.getElem?_inj (List.getElem?_eq_some_iff.1 hid).1 h.names).1 (hid.trans hid'.symm)

theorem exists_ranges? (h : t.name? id = some n) : ∃ r, t.ranges? id = some r := by
  obtain ⟨tag, htag, -⟩ := Option.map_eq_some_iff.1 h
  exact ⟨tag.ranges, by rw [ranges?, htag, Option.map_some]⟩

theorem has_of_name? (h : t.name? id = some n) : t.has id = true := by
  obtain ⟨tag, htag, -⟩ := Option.map_eq_some_iff.1 h
  exact decide_eq_true (List.getElem?_eq_some_iff.1 htag).1

theorem lookup?_eq_none_iff : t.lookup? n = none ↔ ∀ id, t.name? id ≠ some n := by
  rw [lookup?_eq, List.findIdx?_eq_none_iff]
  constructor
  · intro h id hid
    obtain ⟨tag, htag, hname⟩ := Option.map_eq_some_iff.1 hid
    have habsent := h tag (List.mem_of_getElem? htag)
    simp [hname] at habsent
  · intro h tag htag
    obtain ⟨id, hid⟩ := List.getElem?_of_mem htag
    have hne := h id
    rw [name?, hid, Option.map_some, ne_eq, Option.some.injEq] at hne
    simpa using hne

theorem name?_of_lookup? (h : t.lookup? n = some id) : t.name? id = some n := by
  rw [lookup?_eq] at h
  obtain ⟨hlt, hname, -⟩ := List.findIdx?_eq_some_iff_getElem.1 h
  rw [name?, List.getElem?_eq_getElem hlt, Option.map_some, beq_iff_eq.1 hname]

/-- A tag is found by its name. -/
theorem Tidy.lookup?_eq_some_iff (h : t.Tidy length) :
    t.lookup? n = some id ↔ t.name? id = some n := by
  refine ⟨name?_of_lookup?, fun hid => ?_⟩
  cases hfound : t.lookup? n with
  | some id' => rw [h.name?_inj (name?_of_lookup? hfound) hid]
  | none => exact absurd hid (lookup?_eq_none_iff.1 hfound id)

theorem Tidy.contains_rangesOf (h : t.Tidy length) :
    (t.rangesOf n).contains p = true ↔ t.Marks n p := by
  rw [rangesOf]
  cases hfound : t.lookup? n with
  | none =>
    simp only [Option.bind_none, Option.getD_none]
    refine ⟨fun hp => by simp [Region.contains, Region.empty] at hp, ?_⟩
    rintro ⟨id, r, hid, -⟩
    exact absurd hid (lookup?_eq_none_iff.1 hfound id)
  | some id =>
    have hid := h.lookup?_eq_some_iff.1 hfound
    obtain ⟨r, hr⟩ := exists_ranges? hid
    rw [Option.bind_some, hr, Option.getD_some]
    refine ⟨fun hp => ⟨id, r, hid, hr, hp⟩, ?_⟩
    rintro ⟨id', r', hid', hr', hp⟩
    rw [h.name?_inj hid' hid, hr] at hr'
    obtain rfl := Option.some.inj hr'
    exact hp

theorem Tidy.wellFormed_rangesOf (h : t.Tidy length) (n : String) :
    (t.rangesOf n).WellFormed := by
  rw [rangesOf]
  cases hr : (t.lookup? n).bind t.ranges? with
  | none => exact Region.wellFormed_empty
  | some r =>
    obtain ⟨id, -, hid⟩ := Option.bind_eq_some_iff.1 hr
    exact (h.below id r hid).1

theorem Tidy.not_marks (h : t.Tidy length) (hp : length ≤ p) : ¬t.Marks n p := by
  rintro ⟨id, r, -, hr, hin⟩
  have := (h.below id r hr).2 p hin
  omega

/-- A tag's ranges are told by the offsets on which it lies. -/
theorem Tidy.rangesOf_eq (ht : t.Tidy length) (hu : u.Tidy length)
    (h : ∀ p < length, t.Marks n p ↔ u.Marks n p) : t.rangesOf n = u.rangesOf n := by
  refine Region.eq_of_contains (ht.wellFormed_rangesOf n) (hu.wellFormed_rangesOf n) fun p => ?_
  rw [ht.contains_rangesOf, hu.contains_rangesOf]
  by_cases hp : p < length
  · exact h p hp
  · exact iff_of_false (ht.not_marks (by omega)) (hu.not_marks (by omega))

/-! Changes to the ranges of a tag -/

theorem getElem?_modify (tags : List Tag) (g : Tag → Tag) (id id' : TagId) :
    (tags.modify id g)[id']? = tags[id']?.map fun tag => if id = id' then g tag else tag :=
  List.getElem?_modify g id tags id'

theorem names_modifyRanges (t : TagTable) (id : TagId) (f : Region → Region) :
    (t.modifyRanges id f).tags.map (·.name) = t.tags.map (·.name) :=
  map_name_modify _ (by intro; rfl) t.tags id

@[simp] theorem name?_modifyRanges (t : TagTable) (id id' : TagId) (f : Region → Region) :
    (t.modifyRanges id f).name? id' = t.name? id' := name?_withTags id'

@[simp] theorem style?_modifyRanges (t : TagTable) (id id' : TagId) (f : Region → Region) :
    (t.modifyRanges id f).style? id' = t.style? id' := by
  simp only [modifyRanges, style?, tags_withTags, getElem?_modify, Option.bind_map]
  congr 1
  funext tag
  simp only [Function.comp_apply]
  split <;> rfl

theorem Tidy.modifyRanges (h : t.Tidy length) (hf : ∀ r, r.Below length → (f r).Below length)
    (id : TagId) : (t.modifyRanges id f).Tidy length := by
  refine ⟨?_, fun id' r hr => ?_⟩
  · rw [names_modifyRanges]
    exact h.names
  · rw [ranges?_modifyRanges] at hr
    split at hr
    · obtain ⟨r', hr', rfl⟩ := Option.map_eq_some_iff.1 hr
      exact hf r' (h.below id' r' hr')
    · exact h.below id' r hr

/-! Changes to the ranges of all tags -/

@[simp] theorem name?_mapRanges (t : TagTable) (f : Region → Region) (id : TagId) :
    (t.mapRanges f).name? id = t.name? id := name?_withTags id

@[simp] theorem style?_mapRanges (t : TagTable) (f : Region → Region) (id : TagId) :
    (t.mapRanges f).style? id = t.style? id := by
  rw [style?, mapRanges, tags_withTags, List.getElem?_map, Option.bind_map, style?]
  rfl

@[simp] theorem ranges?_mapRanges (t : TagTable) (f : Region → Region) (id : TagId) :
    (t.mapRanges f).ranges? id = (t.ranges? id).map f := by
  rw [ranges?, mapRanges, tags_withTags, List.getElem?_map, Option.map_map, ranges?,
    Option.map_map]
  rfl

theorem names_mapRanges (t : TagTable) (f : Region → Region) :
    (t.mapRanges f).tags.map (·.name) = t.tags.map (·.name) :=
  List.ext_getElem? fun i => by rw [← name?_eq, ← name?_eq, name?_mapRanges]

theorem Tidy.mapRanges {length' : Nat} (h : t.Tidy length)
    (hf : ∀ r, r.Below length → (f r).Below length') : (t.mapRanges f).Tidy length' := by
  refine ⟨?_, fun id r hr => ?_⟩
  · rw [names_mapRanges]
    exact h.names
  · rw [ranges?_mapRanges] at hr
    obtain ⟨r', hr', rfl⟩ := Option.map_eq_some_iff.1 hr
    exact hf r' (h.below id r' hr')

/-- What is taken off a tag is taken off where its name is meant. -/
theorem Tidy.marks_modifyRanges (h : t.Tidy length) {gone : Nat → Prop}
    (hf : ∀ r p, (f r).contains p = true ↔ r.contains p = true ∧ ¬gone p) :
    (t.modifyRanges id f).Marks n p ↔ t.Marks n p ∧ ¬(t.name? id = some n ∧ gone p) := by
  constructor
  · rintro ⟨id', r, hname, hr, hp⟩
    rw [name?_modifyRanges] at hname
    rw [ranges?_modifyRanges] at hr
    split at hr
    · obtain ⟨r', hr', rfl⟩ := Option.map_eq_some_iff.1 hr
      obtain ⟨hin, hstays⟩ := (hf r' p).1 hp
      exact ⟨⟨id', r', hname, hr', hin⟩, fun hgone => hstays hgone.2⟩
    · rename_i hne
      exact ⟨⟨id', r, hname, hr, hp⟩, fun hgone => hne (h.name?_inj hgone.1 hname)⟩
  · rintro ⟨⟨id', r, hname, hr, hp⟩, hstays⟩
    by_cases heq : id = id'
    · subst heq
      refine ⟨id, f r, by rwa [name?_modifyRanges], ?_, (hf r p).2 ⟨hp, fun hgone => ?_⟩⟩
      · rw [ranges?_modifyRanges, if_pos rfl, hr, Option.map_some]
      · exact hstays ⟨hname, hgone⟩
    · exact ⟨id', r, by rwa [name?_modifyRanges], by rwa [ranges?_modifyRanges, if_neg heq], hp⟩

/-- The same change to the ranges of several tags. -/
def modifyEach (t : TagTable) (ids : List TagId) (f : Region → Region) : TagTable :=
  ids.foldl (fun t id => t.modifyRanges id f) t

theorem name?_modifyEach (t : TagTable) (ids : List TagId) (f : Region → Region) (id : TagId) :
    (t.modifyEach ids f).name? id = t.name? id := by
  induction ids generalizing t with
  | nil => rfl
  | cons id' ids ih => exact (ih (t.modifyRanges id' f)).trans (name?_modifyRanges t id' id f)

theorem style?_modifyEach (t : TagTable) (ids : List TagId) (f : Region → Region) (id : TagId) :
    (t.modifyEach ids f).style? id = t.style? id := by
  induction ids generalizing t with
  | nil => rfl
  | cons id' ids ih => exact (ih (t.modifyRanges id' f)).trans (style?_modifyRanges t id' id f)

theorem Tidy.modifyEach (h : t.Tidy length) (hf : ∀ r, r.Below length → (f r).Below length)
    (ids : List TagId) : (t.modifyEach ids f).Tidy length := by
  induction ids generalizing t with
  | nil => exact h
  | cons id ids ih => exact ih (h.modifyRanges hf id)

theorem Tidy.marks_modifyEach (h : t.Tidy length) {gone : Nat → Prop} {ids : List TagId}
    (hb : ∀ r, r.Below length → (f r).Below length)
    (hf : ∀ r p, (f r).contains p = true ↔ r.contains p = true ∧ ¬gone p) :
    (t.modifyEach ids f).Marks n p ↔
      t.Marks n p ∧ ¬((∃ id ∈ ids, t.name? id = some n) ∧ gone p) := by
  induction ids generalizing t with
  | nil => simp [TagTable.modifyEach]
  | cons id ids ih =>
    have hrest := ih (h.modifyRanges hb id)
    rw [TagTable.modifyEach, List.foldl_cons]
    rw [TagTable.modifyEach] at hrest
    rw [hrest, h.marks_modifyRanges hf, and_assoc, ← not_or, ← or_and_right]
    simp only [name?_modifyRanges, List.mem_cons, exists_eq_or_imp]

/-! New tags -/

/-- A tag of that name is there and may get the style, or one is appended. -/
theorem create_cases (t : TagTable) (name : String) (style : Option String) :
    (∃ id, t.name? id = some name ∧ t.create name style =
      (id, t.withTags (t.tags.modify id fun tag => { tag with style := style.or tag.style })
        (map_name_modify _ (by intro; rfl) t.tags id))) ∨
      (∀ id, t.name? id ≠ some name) ∧
        t.create name style = (t.tags.length, t.append ⟨name, style, .empty⟩) := by
  unfold create
  cases hfound : t.lookup? name with
  | none => exact .inr ⟨lookup?_eq_none_iff.1 hfound, rfl⟩
  | some id =>
    refine .inl ⟨id, name?_of_lookup? hfound, ?_⟩
    cases style with
    | some s => rfl
    | none =>
      have hsame : (t.tags.modify id fun tag => { tag with style := Option.or none tag.style }) =
          t.tags := by
        simp only [Option.none_or]
        exact List.modify_id id t.tags
      refine congrArg (Prod.mk id) (TagTable.ext ?_ rfl)
      exact hsame.symm

theorem name?_create_self (t : TagTable) (name : String) (style : Option String) :
    (t.create name style).2.name? (t.create name style).1 = some name := by
  rcases t.create_cases name style with ⟨id, hid, hcreate⟩ | ⟨-, hcreate⟩ <;> rw [hcreate]
  · obtain ⟨tag, htag, hname⟩ := Option.map_eq_some_iff.1 hid
    simp [name?, htag, hname]
  · simp [name?]

theorem style?_create_self (t : TagTable) (name s : String) :
    (t.create name (some s)).2.style? (t.create name (some s)).1 = some s := by
  rcases t.create_cases name (some s) with ⟨id, hid, hcreate⟩ | ⟨-, hcreate⟩ <;> rw [hcreate]
  · obtain ⟨tag, htag, -⟩ := Option.map_eq_some_iff.1 hid
    simp [style?, htag]
  · simp [style?]

theorem name?_create (h : t.name? id = some n) (name : String) (style : Option String) :
    (t.create name style).2.name? id = some n := by
  obtain ⟨tag, htag, hname⟩ := Option.map_eq_some_iff.1 h
  rcases t.create_cases name style with ⟨id', -, hcreate⟩ | ⟨-, hcreate⟩ <;> rw [hcreate]
  · simpa only [name?_withTags] using h
  · have hlt := (List.getElem?_eq_some_iff.1 htag).1
    rw [name?, tags_append, List.getElem?_append_left hlt, htag, Option.map_some, hname]

/-- Only the tag of that name gets another style, and only if one is given. -/
theorem style?_create (hid : t.name? id = some n) {name : String} (style : Option String)
    (hother : n ≠ name ∨ style = none) : (t.create name style).2.style? id = t.style? id := by
  obtain ⟨tag, htag, hname⟩ := Option.map_eq_some_iff.1 hid
  rcases t.create_cases name style with ⟨id', hid', hcreate⟩ | ⟨-, hcreate⟩ <;> rw [hcreate]
  · simp only [style?, tags_withTags, getElem?_modify, htag, Option.map_some, Option.bind_some]
    split
    · rename_i heq
      subst heq
      rcases hother with hne | rfl
      · exact absurd (Option.some.inj (hid.symm.trans hid')) hne
      · rfl
    · rfl
  · have hlt := (List.getElem?_eq_some_iff.1 htag).1
    rw [style?, tags_append, List.getElem?_append_left hlt, style?]

/-- A new tag lies nowhere yet. -/
theorem ranges?_create {r : Region} (h : (t.create name style).2.ranges? id = some r) :
    (t.ranges? id = some r ∧ (t.create name style).2.name? id = t.name? id) ∨ r = .empty := by
  rcases t.create_cases name style with ⟨id', -, hcreate⟩ | ⟨-, hcreate⟩ <;> rw [hcreate] at h ⊢
  · obtain ⟨tag, htag, rfl⟩ := Option.map_eq_some_iff.1 h
    rw [tags_withTags, getElem?_modify, Option.map_eq_some_iff] at htag
    obtain ⟨tag', htag', rfl⟩ := htag
    refine .inl ⟨?_, by simp only [name?_withTags]⟩
    rw [ranges?, htag', Option.map_some]
    split <;> rfl
  · obtain ⟨tag, htag, rfl⟩ := Option.map_eq_some_iff.1 h
    rw [tags_append] at htag
    by_cases hlt : id < t.tags.length
    · rw [List.getElem?_append_left hlt] at htag
      exact .inl ⟨by rw [ranges?, htag, Option.map_some],
        by rw [name?, tags_append, List.getElem?_append_left hlt, name?]⟩
    · rw [List.getElem?_append_right (by omega)] at htag
      have hmem := List.mem_of_getElem? htag
      rw [List.mem_singleton] at hmem
      rw [hmem]
      exact .inr rfl

theorem ranges?_create_of {r : Region} (h : t.ranges? id = some r) (name : String)
    (style : Option String) : (t.create name style).2.ranges? id = some r := by
  obtain ⟨tag, htag, hranges⟩ := Option.map_eq_some_iff.1 h
  rcases t.create_cases name style with ⟨id', -, hcreate⟩ | ⟨-, hcreate⟩ <;> rw [hcreate]
  · simp only [ranges?, tags_withTags, getElem?_modify, htag, Option.map_some, Option.some.injEq]
    split <;> exact hranges
  · have hlt := (List.getElem?_eq_some_iff.1 htag).1
    rw [ranges?, tags_append, List.getElem?_append_left hlt, htag, Option.map_some, hranges]

theorem marks_create : (t.create name style).2.Marks n p ↔ t.Marks n p := by
  constructor
  · rintro ⟨id, r, hname, hr, hp⟩
    rcases ranges?_create hr with ⟨hr', hsame⟩ | rfl
    · exact ⟨id, r, hsame ▸ hname, hr', hp⟩
    · simp [Region.contains, Region.empty] at hp
  · rintro ⟨id, r, hname, hr, hp⟩
    exact ⟨id, r, name?_create hname _ _, ranges?_create_of hr _ _, hp⟩

theorem Tidy.create (h : t.Tidy length) (name : String) (style : Option String) :
    (t.create name style).2.Tidy length := by
  refine ⟨?_, fun id r hr => ?_⟩
  · rcases t.create_cases name style with ⟨id, -, hcreate⟩ | ⟨hnew, hcreate⟩ <;> rw [hcreate]
    · rw [tags_withTags, map_name_modify _ (by intro; rfl)]
      exact h.names
    · rw [tags_append, List.map_append, List.map_cons, List.map_nil]
      refine List.nodup_append.2 ⟨h.names, by simp, ?_⟩
      rintro m hm m' hm' rfl
      rw [List.mem_singleton] at hm'
      obtain ⟨id, hid⟩ := List.getElem?_of_mem hm
      exact hnew id (by rw [name?_eq, hid, hm'])
  · rcases ranges?_create hr with ⟨hr', -⟩ | rfl
    · exact h.below id r hr'
    · exact Region.below_empty length

/-! Tags that are put on several ranges -/

variable {placed : List (TagId × Interval)}

theorem getElem?_addRanges (t : TagTable) (placed : List (TagId × Interval)) (id : TagId) :
    (t.addRanges placed).tags[id]? = t.tags[id]?.map fun tag =>
      { tag with ranges := tag.ranges.addAll ((placed.filter (·.1 == id)).map (·.2)) } := by
  rw [addRanges, tags_withTags, List.getElem?_mapIdx]

theorem name?_addRanges (t : TagTable) (placed : List (TagId × Interval)) (id : TagId) :
    (t.addRanges placed).name? id = t.name? id := name?_withTags id

theorem style?_addRanges (t : TagTable) (placed : List (TagId × Interval)) (id : TagId) :
    (t.addRanges placed).style? id = t.style? id := by
  rw [style?, getElem?_addRanges, Option.bind_map, style?]
  rfl

theorem ranges?_addRanges (t : TagTable) (placed : List (TagId × Interval)) (id : TagId) :
    (t.addRanges placed).ranges? id =
      (t.ranges? id).map (·.addAll ((placed.filter (·.1 == id)).map (·.2))) := by
  rw [ranges?, getElem?_addRanges, Option.map_map, ranges?, Option.map_map]
  rfl

theorem covered_placed {id : TagId} :
    Region.Covered ((placed.filter (·.1 == id)).map (·.2)) p ↔
      ∃ e ∈ placed, e.1 = id ∧ e.2.start ≤ p ∧ p < e.2.stop := by
  simp only [Region.Covered, List.mem_map, List.mem_filter, beq_iff_eq]
  constructor
  · rintro ⟨i, ⟨e, ⟨he, hid⟩, rfl⟩, hp⟩
    exact ⟨e, he, hid, hp⟩
  · rintro ⟨e, he, hid, hp⟩
    exact ⟨e.2, ⟨e, ⟨he, hid⟩, rfl⟩, hp⟩

theorem Tidy.addRanges (h : t.Tidy length) (hplaced : ∀ e ∈ placed, e.2.stop ≤ length) :
    (t.addRanges placed).Tidy length := by
  refine ⟨?_, fun id r hr => ?_⟩
  · have hnames : (t.addRanges placed).tags.map (·.name) = t.tags.map (·.name) :=
      List.ext_getElem? fun i => by rw [← name?_eq, ← name?_eq, name?_addRanges]
    rw [hnames]
    exact h.names
  · rw [ranges?_addRanges, Option.map_eq_some_iff] at hr
    obtain ⟨r, hr, rfl⟩ := hr
    refine ⟨Region.wellFormed_addAll (h.below id r hr).1 _, fun p hp => ?_⟩
    rcases Region.contains_addAll.1 hp with hp | hp
    · exact (h.below id r hr).2 p hp
    · obtain ⟨e, he, -, -, hlt⟩ := covered_placed.1 hp
      exact Nat.lt_of_lt_of_le hlt (hplaced e he)

theorem marks_addRanges :
    (t.addRanges placed).Marks n p ↔
      t.Marks n p ∨ ∃ e ∈ placed, t.name? e.1 = some n ∧ e.2.start ≤ p ∧ p < e.2.stop := by
  constructor
  · rintro ⟨id, r, hname, hr, hp⟩
    rw [name?_addRanges] at hname
    rw [ranges?_addRanges, Option.map_eq_some_iff] at hr
    obtain ⟨r, hr, rfl⟩ := hr
    rcases Region.contains_addAll.1 hp with hp | hp
    · exact .inl ⟨id, r, hname, hr, hp⟩
    · obtain ⟨e, he, rfl, hin⟩ := covered_placed.1 hp
      exact .inr ⟨e, he, hname, hin⟩
  · rintro (⟨id, r, hname, hr, hp⟩ | ⟨e, he, hname, hin⟩)
    · exact ⟨id, _, by rwa [name?_addRanges], by rw [ranges?_addRanges, hr]; rfl,
        Region.contains_addAll.2 (.inl hp)⟩
    · obtain ⟨r, hr⟩ := exists_ranges? hname
      exact ⟨e.1, _, by rwa [name?_addRanges], by rw [ranges?_addRanges, hr]; rfl,
        Region.contains_addAll.2 (.inr (covered_placed.2 ⟨e, he, rfl, hin⟩))⟩

/-- The same tags, on other ranges. -/
structure Relaid (t u : TagTable) : Prop where
  name : ∀ id, u.name? id = t.name? id
  style : ∀ id, u.style? id = t.style? id

theorem relaid_modifyEach (t : TagTable) (ids : List TagId) (f : Region → Region) :
    t.Relaid (t.modifyEach ids f) :=
  ⟨t.name?_modifyEach ids f, t.style?_modifyEach ids f⟩

theorem relaid_addRanges (t : TagTable) (placed : List (TagId × Interval)) :
    t.Relaid (t.addRanges placed) :=
  ⟨t.name?_addRanges placed, t.style?_addRanges placed⟩

end TagTable

/-! Tags that are put on a document -/

namespace Document

variable {d : Document} {placed : List (TagId × Interval)} {n : String} {p : Nat}

theorem tidy_applyTags (h : d.tags.Tidy d.length) (placed : List (TagId × Interval)) :
    (d.applyTags placed).tags.Tidy d.length := by
  refine h.addRanges fun e he => ?_
  obtain ⟨e', -, rfl⟩ := List.mem_map.1 he
  exact Nat.min_le_right _ _

/-- What lies behind the end of a text does not count. -/
theorem marks_applyTags (hp : p < d.length) :
    (d.applyTags placed).tags.Marks n p ↔
      d.tags.Marks n p ∨
        ∃ e ∈ placed, d.tags.name? e.1 = some n ∧ e.2.start ≤ p ∧ p < e.2.stop := by
  refine TagTable.marks_addRanges.trans (or_congr_right ?_)
  constructor
  · rintro ⟨e', he', hname, hlo, hhi⟩
    obtain ⟨e, he, rfl⟩ := List.mem_map.1 he'
    dsimp only at hname hlo hhi
    exact ⟨e, he, hname, by omega⟩
  · rintro ⟨e, he, hname, hlo, hhi⟩
    refine ⟨_, List.mem_map_of_mem he, hname, ?_⟩
    dsimp only
    omega

end Document
end CodeBuffer
