import WebAtlas.Proofs.Text.Scan

/-! # Places of a text

A scan does not read at every place where something can be read: what it takes at one place covers
the places up to the end of the match. When every match goes on to the next occurrence of one mark, a
match that covers a place and the one that could be read there end together.
-/
namespace WebAtlas.Text
variable {α : Type} {allowed : Option Char → Bool} {read : List Char → Option (α × List Char)}
  {last : Option Char} {skip : Nat} {text front ahead inner rest rest' : List Char} {found other : α}
  {mark : Char}

/-- Something can be read at a place of a text; `ahead` is the text from there on. -/
structure ReadAt (allowed : Option Char → Bool) (read : List Char → Option (α × List Char))
    (last : Option Char) (text ahead : List Char) (found : α) (rest : List Char) : Prop where
  place : ∃ front, text = front ++ ahead ∧ ahead ≠ [] ∧ allowed (lastOf last front) = true
  reads : read ahead = some (found,rest)

structure Taken (α : Type) where
  found : α
  ahead : List Char
  rest : List Char

def located (read : List Char → Option (α × List Char)) (ahead : List Char) :
    Option (Taken α × List Char) :=
  (read ahead).map fun taken => (⟨taken.1,ahead,taken.2⟩,taken.2)

theorem map_matchesFrom_located (text : List Char) (skip : Nat) (last : Option Char) :
    (matchesFrom allowed (located read) last skip text).map Taken.found =
      matchesFrom allowed read last skip text := by
  induction text generalizing skip last with
  | nil => rfl
  | cons c text ih =>
    cases skip with
    | succ skip => exact ih skip (some c)
    | zero =>
      rw [matchesFrom, matchesFrom]
      by_cases ha : allowed last = true
      · rw [if_pos ha, if_pos ha, located]
        cases read (c :: text) with
        | none => exact ih 0 (some c)
        | some taken => exact congrArg (taken.1 :: ·) (ih _ (some c))
      · rw [if_neg ha, if_neg ha]
        exact ih 0 (some c)

/-- What a scan takes can be read where it takes it. -/
theorem place_of_mem {taken : Taken α} (h : taken ∈ matchesFrom allowed (located read) last skip text) :
    ∃ front, skip ≤ front.length ∧ text = front ++ taken.ahead ∧ taken.ahead ≠ [] ∧
      allowed (lastOf last front) = true ∧ read taken.ahead = some (taken.found,taken.rest) := by
  induction text generalizing skip last with
  | nil => simp [matchesFrom] at h
  | cons c text ih =>
    have behind : ∀ {skip}, taken ∈ matchesFrom allowed (located read) (some c) skip text →
        ∃ front, skip + 1 ≤ front.length ∧ c :: text = front ++ taken.ahead ∧ taken.ahead ≠ [] ∧
          allowed (lastOf last front) = true ∧ read taken.ahead = some (taken.found,taken.rest) := by
      intro skip hmem
      obtain ⟨front,hskip,htext,hplace⟩ := ih hmem
      exact ⟨c :: front,Nat.succ_le_succ hskip,by rw [htext]; rfl,by rwa [lastOf_cons]⟩
    cases skip with
    | succ skip => exact behind h
    | zero =>
      rw [matchesFrom] at h
      split at h
      · rename_i t rest hread
        obtain ⟨ha,hread⟩ := Option.ite_none_right_eq_some.mp hread
        obtain ⟨⟨found,rest⟩,hfound,heq⟩ := Option.map_eq_some_iff.mp hread
        cases heq
        rcases List.mem_cons.mp h with rfl | h
        · exact ⟨[],Nat.le_refl 0,rfl,List.cons_ne_nil _ _,ha,hfound⟩
        · obtain ⟨front,-,hfront⟩ := behind h
          exact ⟨front,Nat.zero_le _,hfront⟩
      · obtain ⟨front,-,hfront⟩ := behind h
        exact ⟨front,Nat.zero_le _,hfront⟩

theorem readAt_of_mem {taken : Taken α} (h : taken ∈ matchesFrom allowed (located read) last 0 text) :
    ReadAt allowed read last text taken.ahead taken.found taken.rest := by
  obtain ⟨front,-,htext,hne,ha,hread⟩ := place_of_mem h
  exact ⟨⟨front,htext,hne,ha⟩,hread⟩

/-- At every place where something can be read, it is taken, or something taken before covers it. -/
theorem taken_or_covered (hskip : skip ≤ front.length) (hne : ahead ≠ [])
    (ha : allowed (lastOf last front) = true) (hread : read ahead = some (found,rest)) :
    ∃ taken ∈ matchesFrom allowed (located read) last skip (front ++ ahead),
      ∃ inner, taken.ahead = inner ++ ahead ∧ (inner = [] ∨ taken.rest.length < ahead.length) := by
  induction front generalizing skip last with
  | nil =>
    obtain ⟨c,behind,rfl⟩ := List.exists_cons_of_ne_nil hne
    obtain rfl := Nat.le_zero.mp hskip
    refine ⟨⟨found,c :: behind,rest⟩,?_,[],rfl,.inl rfl⟩
    have hhere : (if allowed last = true then located read (c :: behind) else none) =
        some (⟨found,c :: behind,rest⟩,rest) := by
      rw [if_pos (by exact ha), located, hread]
      rfl
    rw [List.nil_append, matchesFrom, hhere]
    exact List.mem_cons_self
  | cons c front ih =>
    rw [lastOf_cons] at ha
    rw [List.cons_append]
    cases skip with
    | succ skip => exact ih (Nat.le_of_succ_le_succ hskip) ha
    | zero =>
      rw [matchesFrom]
      split
      · rename_i t behind heq
        obtain ⟨-,heq⟩ := Option.ite_none_right_eq_some.mp heq
        obtain ⟨⟨first,behind⟩,-,htaken⟩ := Option.map_eq_some_iff.mp heq
        cases htaken
        -- the match at `c` either covers the place or ends before it
        by_cases hcover : behind.length < ahead.length
        · exact ⟨_,List.mem_cons_self,c :: front,rfl,.inr hcover⟩
        · have hbefore : (front ++ ahead).length - behind.length ≤ front.length := by
            rw [List.length_append]
            omega
          obtain ⟨taken,hmem,htaken⟩ := ih hbefore ha
          exact ⟨taken,List.mem_cons_of_mem _ hmem,htaken⟩
      · exact ih (Nat.zero_le _) ha

theorem ReadAt.taken_or_covered (h : ReadAt allowed read last text ahead found rest) :
    ∃ taken ∈ matchesFrom allowed (located read) last 0 text,
      ∃ inner, taken.ahead = inner ++ ahead ∧ (inner = [] ∨ taken.rest.length < ahead.length) := by
  obtain ⟨⟨front,rfl,hne,ha⟩,hread⟩ := h
  exact Text.taken_or_covered (Nat.zero_le _) hne ha hread

theorem matchesFrom_disjoint {first later : Taken α}
    (hf : first ∈ matchesFrom allowed (located read) last skip text)
    (hl : later ∈ matchesFrom allowed (located read) last skip text)
    (hlt : later.ahead.length < first.ahead.length) : later.ahead.length ≤ first.rest.length := by
  induction text generalizing skip last with
  | nil => simp [matchesFrom] at hf
  | cons c text ih =>
    cases skip with
    | succ skip => exact ih hf hl
    | zero =>
      rw [matchesFrom] at hf hl
      split at hf
      · rename_i t rest hread
        rw [hread] at hl
        obtain ⟨-,hread⟩ := Option.ite_none_right_eq_some.mp hread
        obtain ⟨⟨found,rest⟩,-,heq⟩ := Option.map_eq_some_iff.mp hread
        cases heq
        have hbehind : ∀ taken ∈ matchesFrom allowed (located read) (some c)
            (text.length - rest.length) text,
            taken.ahead.length ≤ text.length ∧ taken.ahead.length ≤ rest.length := by
          intro taken htaken
          obtain ⟨front,hskip,htext,-⟩ := place_of_mem htaken
          have hlength := congrArg List.length htext
          rw [List.length_append] at hlength
          omega
        rcases List.mem_cons.mp hf with rfl | hf
        · rcases List.mem_cons.mp hl with rfl | hl
          · exact absurd hlt (Nat.lt_irrefl _)
          · exact (hbehind later hl).2
        · rcases List.mem_cons.mp hl with rfl | hl
          · have hle := (hbehind first hf).1
            rw [List.length_cons] at hlt
            omega
          · exact ih hf hl
      · rename_i hnone
        rw [hnone] at hl
        exact ih hf hl

/-- Every match goes on to the next mark. -/
structure EndsAt (mark : Char) (read : List Char → Option (α × List Char)) : Prop where
  split : ∀ {ahead found rest}, read ahead = some (found,rest) → ∃ inside, mark ∉ inside ∧
    ahead = inside ++ mark :: rest

/-- A match that covers a place where something can be read ends with what can be read there. -/
theorem EndsAt.ends_alike (he : EndsAt mark read) (h : read (inner ++ ahead) = some (found,rest))
    (h' : read ahead = some (other,rest')) (hcover : rest.length < ahead.length) : rest = rest' := by
  obtain ⟨inside,hinside,hwhole⟩ := he.split h
  obtain ⟨inside',hinside',hahead⟩ := he.split h'
  rcases List.append_eq_append_iff.mp hwhole with ⟨tail,rfl,htail⟩ | ⟨tail,rfl,htail⟩
  · rw [hahead] at htail
    have hnot : mark ∉ tail := fun hm => hinside (List.mem_append_right _ hm)
    exact (split_at_first hnot hinside' htail.symm).2
  · -- the mark would stand before the place
    cases tail with
    | nil =>
      rw [List.nil_append] at htail
      rw [← htail] at hahead
      have hnil : ([] : List Char) ++ mark :: rest = inside' ++ mark :: rest' := hahead
      exact (split_at_first List.not_mem_nil hinside' hnil).2
    | cons c tail =>
      obtain ⟨-,rfl⟩ := List.cons.inj htail
      simp only [List.append_eq, List.length_append] at hcover
      omega

/-- No reading that starts before something taken goes on past its start. -/
theorem EndsAt.not_covered (he : EndsAt mark read) {taken : Taken α}
    (hmem : taken ∈ matchesFrom allowed (located read) last 0 text)
    (h : ReadAt allowed read last text (inner ++ taken.ahead) other rest) (hne : inner ≠ []) :
    taken.ahead.length ≤ rest.length := by
  by_contra hcover
  have hcover := Nat.lt_of_not_le hcover
  -- what the scan takes at that place, or over it, ends with the match that is taken, too
  obtain ⟨first,hfirst,before,hahead,hstart⟩ := h.taken_or_covered
  have hreads := (readAt_of_mem hfirst).reads
  have hrest : first.rest = rest := by
    rw [hahead] at hreads
    rcases hstart with rfl | hstart
    · rw [List.nil_append, h.reads] at hreads
      exact (Prod.mk.inj (Option.some.inj hreads)).2.symm
    · exact he.ends_alike hreads h.reads hstart
  have hlong : 0 < inner.length := List.length_pos_iff.mpr hne
  have hearlier : taken.ahead.length < first.ahead.length := by
    rw [hahead, List.length_append, List.length_append]
    omega
  have hapart := matchesFrom_disjoint hfirst hmem hearlier
  rw [hrest] at hapart
  omega

end WebAtlas.Text
