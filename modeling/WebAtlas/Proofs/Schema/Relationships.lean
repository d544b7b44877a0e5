import WebAtlas.Schema.Relationship
import Mathlib.Data.List.Nodup
import Mathlib.Data.List.Perm.Basic

/-! # Relationships and the order of entities

The first field that links a pair of entities decides its relationship. When names are distinct, the
pairs do not hang on the order of the entities, and a cardinality hangs on no more than which of its
two entities comes first, and on that only when one leads to many and the other does not.
-/
namespace WebAtlas.Schema
variable {entities entities' : List Entity} {seen fields : List RelationField} {f g : RelationField}
  {r : Relationship} {a b : String}

/-- A field that leads from one of two entities to the other. -/
def RelationField.Links (f : RelationField) (a b : String) : Prop :=
  (f.owner = a ∧ f.field.typeName = b) ∨ (f.owner = b ∧ f.field.typeName = a)

def Relationship.Links (r : Relationship) (a b : String) : Prop :=
  (r.source = a ∧ r.target = b) ∨ (r.source = b ∧ r.target = a)

instance : Decidable (f.Links a b) := inferInstanceAs (Decidable (_ ∨ _))

instance : Decidable (r.Links a b) := inferInstanceAs (Decidable (_ ∨ _))

theorem links_comm : f.Links a b ↔ f.Links b a := or_comm

theorem samePair_iff : f.samePair g = true ↔ f.Links g.owner g.field.typeName := by
  simp [RelationField.samePair, RelationField.Links]

theorem samePair_of_links (hf : f.Links a b) (hg : g.Links a b) : f.samePair g = true := by
  rw [samePair_iff]
  rcases hg with ⟨rfl,rfl⟩ | ⟨rfl,rfl⟩
  · exact hf
  · exact links_comm.mp hf

theorem links_iff_of_samePair (h : f.samePair g = true) : f.Links a b ↔ g.Links a b := by
  rw [samePair_iff] at h
  rcases h with ⟨ho,ht⟩ | ⟨ho,ht⟩
  · simp [RelationField.Links, ho, ht]
  · simp only [RelationField.Links, ho, ht]
    tauto

/-- The field kept for a pair is the first one that links it, if none was seen before. -/
theorem mem_firstOfPairs_iff : f ∈ firstOfPairs seen fields ∧ f.Links a b ↔
    (∀ g ∈ seen, ¬ g.Links a b) ∧ fields.find? (fun g => g.Links a b) = some f := by
  induction fields generalizing seen with
  | nil => simp [firstOfPairs]
  | cons h fields ih =>
    rw [firstOfPairs]
    by_cases hseen : seen.any h.samePair = true
    · rw [if_pos hseen, ih]
      obtain ⟨g,hg,hsame⟩ := List.any_eq_true.mp hseen
      have hskip : (∀ g ∈ seen, ¬ g.Links a b) → ¬ h.Links a b := fun hnone hl =>
        hnone g hg ((links_iff_of_samePair hsame).mp hl)
      constructor
      · rintro ⟨hnone,hfind⟩
        exact ⟨hnone,by rwa [List.find?_cons_of_neg (by simpa using hskip hnone)]⟩
      · rintro ⟨hnone,hfind⟩
        rw [List.find?_cons_of_neg (by simpa using hskip hnone)] at hfind
        exact ⟨hnone,hfind⟩
    · rw [if_neg hseen]
      have hnew : ∀ g ∈ seen, ¬ h.samePair g = true := fun g hg hsame =>
        hseen (List.any_eq_true.mpr ⟨g,hg,hsame⟩)
      by_cases hl : h.Links a b
      · have hnone : ∀ g ∈ seen, ¬ g.Links a b := fun g hg hlg =>
          hnew g hg (samePair_of_links hl hlg)
        rw [List.find?_cons_of_pos (by simpa using hl), Option.some_inj]
        constructor
        · rintro ⟨hmem,hlf⟩
          rcases List.mem_cons.mp hmem with rfl | hmem
          · exact ⟨hnone,rfl⟩
          · exact absurd hl ((ih.mp ⟨hmem,hlf⟩).1 h List.mem_cons_self)
        · rintro ⟨-,rfl⟩
          exact ⟨List.mem_cons_self,hl⟩
      · rw [List.find?_cons_of_neg (by simpa using hl)]
        constructor
        · rintro ⟨hmem,hlf⟩
          rcases List.mem_cons.mp hmem with rfl | hmem
          · exact absurd hlf hl
          · obtain ⟨hnone,hfind⟩ := ih.mp ⟨hmem,hlf⟩
            exact ⟨fun g hg => hnone g (List.mem_cons_of_mem _ hg),hfind⟩
        · rintro ⟨hnone,hfind⟩
          have hcons : ∀ g ∈ h :: seen, ¬ g.Links a b := List.forall_mem_cons.mpr ⟨hl,hnone⟩
          obtain ⟨hmem,hlf⟩ := ih.mpr ⟨hcons,hfind⟩
          exact ⟨List.mem_cons_of_mem _ hmem,hlf⟩

theorem firstOfPairs_pairwise (seen fields : List RelationField) :
    (firstOfPairs seen fields).Pairwise fun f g => f.samePair g = false := by
  induction fields generalizing seen with
  | nil => exact .nil
  | cons h fields ih =>
    rw [firstOfPairs]
    split
    · exact ih seen
    · refine List.pairwise_cons.mpr ⟨fun g hg => ?_,ih _⟩
      have hlg : g.Links g.owner g.field.typeName := .inl ⟨rfl,rfl⟩
      have hnot := (mem_firstOfPairs_iff.mp ⟨hg,hlg⟩).1 h List.mem_cons_self
      rwa [← samePair_iff, Bool.not_eq_true] at hnot

/-- The relationship that a field decides. -/
def RelationField.relationship (entities : List Entity) (f : RelationField) : Relationship :=
  ⟨f.owner,f.field.typeName,cardinality entities f,f.field.name⟩

theorem mem_relationships_iff : r ∈ relationships entities ∧ r.Links a b ↔
    ∃ f, (relationFields entities).find? (fun g => g.Links a b) = some f ∧
      r = f.relationship entities := by
  constructor
  · rintro ⟨hr,hl⟩
    obtain ⟨f,hf,rfl⟩ := List.mem_map.mp hr
    exact ⟨f,(mem_firstOfPairs_iff.mp ⟨hf,hl⟩).2,rfl⟩
  · rintro ⟨f,hfind,rfl⟩
    obtain ⟨hf,hl⟩ := (@mem_firstOfPairs_iff [] _ f a b).mpr ⟨by simp,hfind⟩
    exact ⟨List.mem_map.mpr ⟨f,hf,rfl⟩,hl⟩

theorem exists_relationship_iff : (∃ r ∈ relationships entities, r.Links a b) ↔
    ∃ f ∈ relationFields entities, f.Links a b := by
  constructor
  · rintro ⟨r,hr⟩
    obtain ⟨f,hfind,-⟩ := mem_relationships_iff.mp hr
    exact ⟨f,List.mem_of_find?_eq_some hfind,by simpa using List.find?_some hfind⟩
  · rintro ⟨f,hf,hl⟩
    have hsome : ((relationFields entities).find? fun g => g.Links a b).isSome = true :=
      List.find?_isSome.mpr ⟨f,hf,by simpa using hl⟩
    obtain ⟨g,hfind⟩ := Option.isSome_iff_exists.mp hsome
    exact ⟨_,mem_relationships_iff.mpr ⟨g,hfind,rfl⟩⟩

/-- No two relationships link the same pair. -/
theorem relationships_pairwise (entities : List Entity) :
    (relationships entities).Pairwise fun r s => ¬ r.Links s.source s.target := by
  refine List.pairwise_map.mpr ((firstOfPairs_pairwise [] _).imp fun {f g} hfg hl => ?_)
  have hsame : f.samePair g = true := samePair_iff.mpr hl
  rw [hfg] at hsame
  cases hsame

/-- The first relation field of the entity `owner` that leads to `target`. -/
def link? (entities : List Entity) (owner target : String) : Option Field :=
  (entities.find? (·.name == owner)).bind fun e =>
    e.fields.find? fun f => f.isRelation && f.typeName == target

theorem find?_name_iff {e : Entity} (hn : (entities.map (·.name)).Nodup) :
    entities.find? (·.name == a) = some e ↔ e ∈ entities ∧ e.name = a := by
  constructor
  · intro h
    exact ⟨List.mem_of_find?_eq_some h,by simpa using List.find?_some h⟩
  · rintro ⟨he,rfl⟩
    obtain ⟨e',h⟩ := Option.isSome_iff_exists.mp
      (List.find?_isSome (p := (·.name == e.name)) |>.mpr ⟨e,he,by simp⟩)
    have hname : e'.name = e.name := by simpa using List.find?_some h
    rw [h, List.inj_on_of_nodup_map hn (List.mem_of_find?_eq_some h) he hname]

theorem find?_name_perm (hp : entities.Perm entities') (hn : (entities.map (·.name)).Nodup) :
    entities.find? (·.name == a) = entities'.find? (·.name == a) := by
  have hn' : (entities'.map (·.name)).Nodup := (hp.map _).nodup_iff.mp hn
  apply Option.ext
  intro e
  rw [find?_name_iff hn, find?_name_iff hn', hp.mem_iff]

theorem link?_perm (hp : entities.Perm entities') (hn : (entities.map (·.name)).Nodup)
    (a b : String) : link? entities a b = link? entities' a b := by
  unfold link?
  rw [find?_name_perm hp hn]

theorem fieldBack?_eq (hn : (entities.map (·.name)).Nodup) (f : RelationField) :
    fieldBack? entities f = link? entities f.field.typeName f.owner := by
  unfold fieldBack? link?
  rw [← find?_name_perm (List.reverse_perm entities).symm hn]

theorem link?_typeName {back : Field} (h : link? entities a b = some back) : back.typeName = b := by
  obtain ⟨e,-,hfind⟩ := Option.bind_eq_some_iff.mp h
  have hback := List.find?_some hfind
  simp only [Bool.and_eq_true, beq_iff_eq] at hback
  exact hback.2

theorem link?_cons {e : Entity} : link? (e :: entities) a b =
    if e.name = a then e.fields.find? (fun f => f.isRelation && f.typeName == b)
    else link? entities a b := by
  unfold link?
  by_cases h : e.name = a <;> simp [h]

theorem link?_eq_none (h : a ∉ entities.map (·.name)) : link? entities a b = none := by
  unfold link?
  rw [List.find?_eq_none.mpr]
  · rfl
  · intro e he heq
    exact h (List.mem_map.mpr ⟨e,he,by simpa using heq⟩)

/-- The first field of an entity that links a pair to which it belongs leads to the other one. -/
theorem find?_links_of_owner (fields : List Field) (hab : a ≠ b) :
    ((fields.filter (·.isRelation)).map (⟨a,·⟩)).find? (fun g => RelationField.Links g a b) =
      (fields.find? fun f => f.isRelation && f.typeName == b).map (⟨a,·⟩) := by
  rw [List.find?_map, List.find?_filter]
  congr 2
  funext f
  simp [RelationField.Links, hab, beq_eq_decide]

theorem find?_links_of_other {name : String} (fields : List Field) (ha : name ≠ a) (hb : name ≠ b) :
    ((fields.filter (·.isRelation)).map (⟨name,·⟩)).find? (fun g => RelationField.Links g a b) =
      none := by
  rw [List.find?_eq_none]
  intro g hg
  obtain ⟨f,-,rfl⟩ := List.mem_map.mp hg
  simp [RelationField.Links, ha, hb]

theorem find?_links_comm : fields.find? (fun g => g.Links a b) = fields.find? fun g => g.Links b a := by
  congr 1
  funext g
  exact decide_eq_decide.mpr links_comm

/-- Where `b` does not come before `a`, a field of `a` decides their relationship if there is one. -/
theorem find?_links (hab : a ≠ b) (hn : (entities.map (·.name)).Nodup)
    (horder : ¬ [b,a].Sublist (entities.map (·.name))) :
    (relationFields entities).find? (fun g => g.Links a b) =
      ((link? entities a b).map (⟨a,·⟩)).or ((link? entities b a).map (⟨b,·⟩)) := by
  induction entities with
  | nil => rfl
  | cons e entities ih =>
    rw [List.map_cons, List.nodup_cons] at hn
    rw [List.map_cons] at horder
    have hrest := ih hn.2 fun hsub => horder (hsub.cons _)
    rw [relationFields, List.flatMap_cons, List.find?_append, ← relationFields, hrest, link?_cons,
      link?_cons]
    by_cases ha : e.name = a
    · subst ha
      rw [find?_links_of_owner _ hab, if_pos rfl, if_neg hab, link?_eq_none hn.1]
      rfl
    · by_cases hb : e.name = b
      · subst hb
        have hnot : a ∉ entities.map (·.name) := fun hmem =>
          horder ((List.singleton_sublist.mpr hmem).cons_cons _)
        rw [find?_links_comm, find?_links_of_owner _ (Ne.symm hab), if_neg ha, if_pos rfl,
          link?_eq_none hnot, link?_eq_none hn.1]
        simp
      · rw [find?_links_of_other _ ha hb, if_neg ha, if_neg hb]
        rfl

/-- The cardinality between two entities, from the field of the first one to the second and back. -/
def pairCardinality : Option Field → Option Field → Cardinality
  | some f, back =>
    if f.isArray then if back.any (·.isArray) then .manyToMany else .oneToMany else .oneToOne
  | none, back => if back.any (·.isArray) then .oneToMany else .oneToOne

theorem cardinality_of_first (hab : a ≠ b) (hn : (entities.map (·.name)).Nodup)
    (horder : ¬ [b,a].Sublist (entities.map (·.name))) (hr : r ∈ relationships entities)
    (hl : r.Links a b) :
    r.cardinality = pairCardinality (link? entities a b) (link? entities b a) := by
  obtain ⟨f,hfind,rfl⟩ := mem_relationships_iff.mp ⟨hr,hl⟩
  rw [find?_links hab hn horder] at hfind
  have hback := fieldBack?_eq hn f
  cases hown : link? entities a b with
  | some field =>
    obtain rfl := link?_typeName hown
    rw [hown] at hfind
    cases hfind
    simp only [RelationField.relationship, cardinality, hback, pairCardinality]
  | none =>
    cases hother : link? entities b a with
    | none =>
      rw [hown, hother] at hfind
      cases hfind
    | some field =>
      obtain rfl := link?_typeName hother
      rw [hown, hother] at hfind
      cases hfind
      simp [RelationField.relationship, cardinality, hback, pairCardinality, hown]

theorem pairCardinality_comm {own back : Option Field}
    (h : ∀ f ∈ own, ∀ g ∈ back, f.isArray = g.isArray) :
    pairCardinality own back = pairCardinality back own := by
  cases own with
  | none => cases back <;> rfl
  | some f =>
    cases back with
    | none => rfl
    | some g =>
      have hfg : f.isArray = g.isArray := h f rfl g rfl
      simp [pairCardinality, hfg]

theorem not_sublist_swap (hab : a ≠ b) {names : List String} (hn : names.Nodup)
    (h : [b,a].Sublist names) : ¬ [a,b].Sublist names := by
  intro h'
  induction names with
  | nil => cases h
  | cons name names ih =>
    obtain ⟨hname,hn⟩ := List.nodup_cons.mp hn
    cases h with
    | cons _ h =>
      cases h' with
      | cons _ h' => exact ih hn h h'
      | cons_cons _ h' => exact hname (h.subset (by simp))
    | cons_cons _ h =>
      cases h' with
      | cons _ h' => exact hname (h'.subset (by simp))
      | cons_cons _ h' => exact hab rfl

/-- The cardinality between two entities from the fields between them and their order. -/
theorem cardinality_of_links (hab : a ≠ b) (hn : (entities.map (·.name)).Nodup)
    (hr : r ∈ relationships entities) (hl : r.Links a b) :
    r.cardinality = if [b,a].Sublist (entities.map (·.name)) then
      pairCardinality (link? entities b a) (link? entities a b)
      else pairCardinality (link? entities a b) (link? entities b a) := by
  split
  · rename_i horder
    exact cardinality_of_first (Ne.symm hab) hn (not_sublist_swap hab hn horder) hr (Or.symm hl)
  · rename_i horder
    exact cardinality_of_first hab hn horder hr hl

/-- In any order of the entities the same pairs are related, each once, and with the same cardinality
unless of the two fields between them one alone leads to many. Then its owner decides by coming first:
one to many when it does, one to one when it does not. -/
theorem relationships_perm (hp : entities.Perm entities') (hn : (entities.map (·.name)).Nodup) :
    (relationships entities').Pairwise (fun r s => ¬ r.Links s.source s.target) ∧
    (∀ a b, (∃ r ∈ relationships entities, r.Links a b) ↔ ∃ r ∈ relationships entities', r.Links a b) ∧
    ∀ a b, a ≠ b → ∀ r ∈ relationships entities, r.Links a b →
      ∀ r' ∈ relationships entities', r'.Links a b →
        ((∀ f ∈ link? entities a b, ∀ g ∈ link? entities b a, f.isArray = g.isArray) →
          r'.cardinality = r.cardinality) ∧
        ∀ f ∈ link? entities a b, ∀ g ∈ link? entities b a, f.isArray = true → g.isArray = false →
          r'.cardinality =
            if [b,a].Sublist (entities'.map (·.name)) then .oneToOne else .oneToMany := by
  have hn' : (entities'.map (·.name)).Nodup := (hp.map _).nodup_iff.mp hn
  refine ⟨relationships_pairwise entities',fun a b => ?_,fun a b hab r hr hl r' hr' hl' => ?_⟩
  · have hfields : (relationFields entities).Perm (relationFields entities') := hp.flatMap_right _
    simp only [exists_relationship_iff, hfields.mem_iff]
  have hc := cardinality_of_links hab hn hr hl
  have hc' := cardinality_of_links hab hn' hr' hl'
  rw [← link?_perm hp hn a b, ← link?_perm hp hn b a] at hc'
  constructor
  · intro hsame
    rw [pairCardinality_comm hsame, ite_self] at hc hc'
    rw [hc, hc']
  · intro f hf g hg hfa hga
    rw [hc', Option.mem_def.mp hf, Option.mem_def.mp hg]
    simp [pairCardinality, hfa, hga]

def manyField (name typeName : String) : Field := ⟨name,typeName,true,false,true⟩

def oneField (name typeName : String) : Field := ⟨name,typeName,true,false,false⟩

/-- A user has many posts and is in many groups, a post has one author, a group has many users. -/
def user : Entity := ⟨"User",[manyField "posts" "Post", manyField "groups" "Group"]⟩

def post : Entity := ⟨"Post",[oneField "author" "User"]⟩

def group : Entity := ⟨"Group",[manyField "users" "User"]⟩

/-- Users and groups are related alike in both orders, users and posts as the order has it. -/
theorem relationships_perm_users : [user,post,group].Perm [group,post,user] ∧
    ([user,post,group].map (·.name)).Nodup ∧
    (∀ r ∈ relationships [group,post,user], r.Links "User" "Group" → r.cardinality = .manyToMany) ∧
    ∀ r ∈ relationships [group,post,user], r.Links "User" "Post" → r.cardinality = .oneToOne := by
  have hp : [user,post,group].Perm [group,post,user] := (List.reverse_perm [user,post,group]).symm
  have hn : ([user,post,group].map (·.name)).Nodup := by decide
  obtain ⟨-,-,hcardinality⟩ := relationships_perm hp hn
  refine ⟨hp,hn,fun r hr hl => ?_,fun r hr hl => ?_⟩
  · have hmany : ⟨"User","Group",.manyToMany,"groups"⟩ ∈ relationships [user,post,group] := by decide
    exact (hcardinality "User" "Group" (by decide) _ hmany (by decide) r hr hl).1 (by decide)
  · have hone : ⟨"User","Post",.oneToMany,"posts"⟩ ∈ relationships [user,post,group] := by decide
    exact (hcardinality "User" "Post" (by decide) _ hone (by decide) r hr hl).2 _ rfl _ rfl rfl rfl

/-- Which of two entities is declared first can change the cardinality of their relationship. -/
theorem relationships_order : [user,post,group].Perm [post,user,group] ∧
    ([user,post,group].map (·.name)).Nodup ∧
    (∀ e ∈ [user,post,group], ∀ target ∈ [user,post,group], target.name ≠ e.name →
      (e.fields.filter fun f => f.isRelation && f.typeName == target.name).length ≤ 1) ∧
    relationships [user,post,group] =
      [⟨"User","Post",.oneToMany,"posts"⟩,⟨"User","Group",.manyToMany,"groups"⟩] ∧
    relationships [post,user,group] =
      [⟨"Post","User",.oneToOne,"author"⟩,⟨"User","Group",.manyToMany,"groups"⟩] := by
  decide

end WebAtlas.Schema
