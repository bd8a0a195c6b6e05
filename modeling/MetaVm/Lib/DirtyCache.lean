import MetaVm.Lib.Numerals

namespace MetaVm.DirtyCache

/-! A store of values, a cache of their digests, and the keys that were written
since the cache was last brought up to date. -/

variable {Key Value Digest : Type*} [DecidableEq Key]

/-- The cache has the digest of every stored value, except under dirty keys that
are in the store. -/
def Fresh (digest : Key → Value → Digest) (store : Finmap fun _ : Key => Value)
    (cache : Finmap fun _ : Key => Digest) (dirty : Finset Key) : Prop :=
  ∀ key, key ∉ dirty ∨ store.lookup key = none →
    cache.lookup key = (store.lookup key).map (digest key)

/-- Values change under dirty keys only, none is removed, and no key becomes
clean. -/
structure Writes (store next : Finmap fun _ : Key => Value)
    (dirty nextDirty : Finset Key) : Prop where
  dirtyKept : dirty ⊆ nextDirty
  same : ∀ key, key ∉ nextDirty ∨ next.lookup key = none →
    next.lookup key = store.lookup key

def refreshKey (digest : Key → Value → Digest) (store : Finmap fun _ : Key => Value)
    (cache : Finmap fun _ : Key => Digest) (key : Key) : Finmap fun _ : Key => Digest :=
  match store.lookup key with
  | some value => cache.insert key (digest key value)
  | none => cache

/-- Bring the cache up to date under some keys. -/
def refresh (digest : Key → Value → Digest) (store : Finmap fun _ : Key => Value)
    (cache : Finmap fun _ : Key => Digest) (keys : List Key) :
    Finmap fun _ : Key => Digest :=
  keys.foldl (refreshKey digest store) cache

variable {digest : Key → Value → Digest} {store next last : Finmap fun _ : Key => Value}
  {cache other : Finmap fun _ : Key => Digest} {dirty nextDirty lastDirty : Finset Key}

theorem Writes.refl (store : Finmap fun _ : Key => Value) (dirty : Finset Key) :
    Writes store store dirty dirty :=
  ⟨Finset.Subset.refl dirty, fun _ _ => rfl⟩

theorem Writes.trans (first : Writes store next dirty nextDirty)
    (second : Writes next last nextDirty lastDirty) : Writes store last dirty lastDirty := by
  refine ⟨first.dirtyKept.trans second.dirtyKept, ?_⟩
  intro key settled
  have later : last.lookup key = next.lookup key := second.same key settled
  rw [later]
  apply first.same
  rw [← later]
  exact settled.imp (fun clean dirty => clean (second.dirtyKept dirty)) id

/-- Storing a value under a key that becomes dirty. -/
theorem writes_insert (store : Finmap fun _ : Key => Value) (dirty : Finset Key) (key : Key)
    (value : Value) : Writes store (store.insert key value) dirty (insert key dirty) := by
  refine ⟨Finset.subset_insert key dirty, ?_⟩
  intro candidate settled
  have differs : candidate ≠ key := by
    rintro rfl
    rcases settled with clean | absent
    · exact clean (Finset.mem_insert_self candidate dirty)
    · rw [Finmap.lookup_insert] at absent
      cases absent
  exact Finmap.lookup_insert_of_ne store differs

theorem Fresh.writes (fresh : Fresh digest store cache dirty)
    (writes : Writes store next dirty nextDirty) : Fresh digest next cache nextDirty := by
  intro key settled
  have same : next.lookup key = store.lookup key := writes.same key settled
  rw [same]
  apply fresh
  rw [← same]
  exact settled.imp (fun clean dirty => clean (writes.dirtyKept dirty)) id

theorem Fresh.refreshKey (fresh : Fresh digest store cache dirty) (key : Key) :
    Fresh digest store (refreshKey digest store cache key) (dirty.erase key) := by
  intro candidate settled
  unfold DirtyCache.refreshKey
  by_cases here : candidate = key
  · subst here
    cases held : store.lookup candidate with
    | none =>
        have clean := fresh candidate (.inr held)
        rw [held] at clean
        exact clean
    | some value => exact Finmap.lookup_insert cache
  · have untouched : cache.lookup candidate =
        (store.lookup candidate).map (digest candidate) :=
      fresh candidate (settled.imp
        (fun clean dirty => clean (Finset.mem_erase.2 ⟨here, dirty⟩)) id)
    split
    · rw [Finmap.lookup_insert_of_ne cache here, untouched]
    · exact untouched

/-- A cache refreshed under every dirty key is up to date. -/
theorem Fresh.refresh (fresh : Fresh digest store cache dirty) {keys : List Key}
    (covers : ∀ key ∈ dirty, key ∈ keys) :
    Fresh digest store (refresh digest store cache keys) ∅ := by
  induction keys generalizing cache dirty with
  | nil =>
      have clean : dirty = ∅ :=
        Finset.eq_empty_of_forall_notMem fun key isDirty => by cases covers key isDirty
      rw [← clean]
      exact fresh
  | cons key keys ih =>
      apply ih (fresh.refreshKey key)
      intro candidate isDirty
      obtain ⟨differs, isDirty⟩ := Finset.mem_erase.1 isDirty
      exact (List.mem_cons.1 (covers candidate isDirty)).resolve_left differs

/-- Nothing is cached yet and every key in the store is dirty. -/
theorem fresh_empty (digest : Key → Value → Digest) (store : Finmap fun _ : Key => Value) :
    Fresh digest store ∅ store.keys := by
  intro key settled
  have absent : store.lookup key = none := by
    rcases settled with clean | absent
    · rw [Finmap.mem_keys] at clean
      exact Finmap.lookup_eq_none.2 clean
    · exact absent
  rw [absent]
  exact Finmap.lookup_empty key

/-- An up-to-date cache is determined by the store. -/
theorem Fresh.unique (fresh : Fresh digest store cache ∅)
    (otherFresh : Fresh digest store other ∅) : cache = other := by
  apply Finmap.ext_lookup
  intro key
  rw [fresh key (.inl (Finset.notMem_empty key)),
    otherFresh key (.inl (Finset.notMem_empty key))]

end MetaVm.DirtyCache
