import ResolverRecovery.Proofs.QuickLz.Output

/-!
# What the buckets hold

At level 1 a match names a bucket, and copies from the latest item start of which the first three
bytes belong to that bucket.  The decoder enters positions as it goes along: behind a literal the
position of which the third byte has just been written, at a match everything up to its start, and
never a position within a match.  Whenever an item is reached, the buckets hold exactly the latest
item starts that are three bytes or more before the end of the data.

## Main definitions

* `History.bucketAt`: the bucket of a position of the data.
* `Latest`: every bucket holds the latest of some positions that belong to it.
* `State.Entered`: the invariant that relates buckets and history.

## Main statements

* `Latest.enter`: entering positions one after the other keeps the latest of each bucket.
* `State.Entered.append`, `State.Entered.copy`: the invariant is kept by a literal and by a match.
-/

namespace ResolverRecovery.Codec.QuickLz

/-! ### Positions and their buckets -/

namespace History

/-- The bucket of the three bytes at a position of the data. -/
def bucketAt (h : History) (p : Nat) : Nat := bucketOf (littleEndian ((h.output.drop p).take 3))

/-- An item starts at the position, three bytes or more before the end of the data. -/
def IsSource (h : History) (p : Nat) : Prop := p ∈ h.starts ∧ p + 3 ≤ h.output.length

/-- What is appended to the data changes no bucket of an earlier position. -/
theorem bucketAt_eq_of_extends {h h' : History} (hextends : h.output <+: h'.output) {p : Nat}
    (hp : p + 3 ≤ h.output.length) : h'.bucketAt p = h.bucketAt p := by
  obtain ⟨tail, htail⟩ := hextends
  rw [bucketAt, bucketAt, ← htail, List.drop_append_of_le_length (by omega),
    List.take_append_of_le_length (by rw [List.length_drop]; omega)]

end History

theorem bucketOf_lt (value : Nat) : bucketOf value < bucketCount :=
  Nat.mod_lt _ (by decide)

/-- Every bucket holds the latest of the given positions that belong to it, if there are any. -/
def Latest (bucket : Nat → Nat) (positions : Nat → Prop) (buckets : Array Nat) : Prop :=
  ∀ p, positions p → (∀ q, positions q → bucket q = bucket p → q ≤ p) →
    buckets.getD (bucket p) 0 = p

theorem Latest.congr {bucket bucket' : Nat → Nat} {positions positions' : Nat → Prop}
    {buckets : Array Nat} (h : Latest bucket positions buckets)
    (hpositions : ∀ p, positions' p ↔ positions p)
    (hbucket : ∀ p, positions p → bucket' p = bucket p) :
    Latest bucket' positions' buckets := by
  intro p hp hlatest
  have hp' := (hpositions p).mp hp
  rw [hbucket p hp']
  refine h p hp' fun q hq hsame => ?_
  refine hlatest q ((hpositions q).mpr hq) ?_
  rw [hbucket q hq, hbucket p hp', hsame]

/-- A later position takes over its bucket. -/
theorem Latest.set {bucket : Nat → Nat} {positions : Nat → Prop} {buckets : Array Nat} {e : Nat}
    (h : Latest bucket positions buckets) (hlater : ∀ p, positions p → p < e)
    (hroom : bucket e < buckets.size) :
    Latest bucket (fun p => positions p ∨ p = e) (buckets.setIfInBounds (bucket e) e) := by
  rintro p (hp | rfl) hlatest
  · -- were it the bucket of `e`, then `p` would not be the latest position in it
    have hne : bucket e ≠ bucket p := by
      intro hsame
      have := hlatest e (.inr rfl) hsame
      have := hlater p hp
      omega
    rw [Array.getD_eq_getD_getElem?, Array.getElem?_setIfInBounds_ne hne,
      ← Array.getD_eq_getD_getElem?]
    exact h p hp fun q hq hsame => hlatest q (.inl hq) hsame
  · rw [Array.getD_eq_getD_getElem?, Array.getElem?_setIfInBounds_self_of_lt hroom]
    rfl

/-! ### Entering positions -/

namespace State

/-- Entering positions concerns the buckets, and how far positions are entered. -/
theorem enter_eq (n : Nat) (s : State) :
    s.enter n = { s with buckets := (s.enter n).buckets, entered := s.entered + n } := by
  induction n generalizing s with
  | zero => rfl
  | succ n ih =>
      rw [enter, ih, Nat.add_comm n 1, ← Nat.add_assoc]

@[simp] theorem output_enter (n : Nat) (s : State) : (s.enter n).output = s.output := by
  rw [enter_eq]

@[simp] theorem written_enter (n : Nat) (s : State) : (s.enter n).written = s.written := by
  rw [enter_eq]

@[simp] theorem lookahead_enter (n : Nat) (s : State) : (s.enter n).lookahead = s.lookahead := by
  rw [enter_eq]

@[simp] theorem entered_enter (n : Nat) (s : State) : (s.enter n).entered = s.entered + n := by
  rw [enter_eq]

@[simp] theorem size_buckets_enter (n : Nat) (s : State) :
    (s.enter n).buckets.size = s.buckets.size := by
  induction n generalizing s with
  | zero => rfl
  | succ n ih => rw [enter, ih, Array.size_setIfInBounds]

end State

/-- After `n` positions have been entered, each bucket holds the latest of all its positions. -/
theorem Latest.enter {positions : Nat → Prop} {s : State} (n : Nat)
    (h : Latest (fun p => bucketOf (outputWord s.output p)) positions s.buckets)
    (hlater : ∀ p, positions p → p < s.entered) (hroom : s.buckets.size = bucketCount) :
    Latest (fun p => bucketOf (outputWord s.output p))
      (fun p => positions p ∨ s.entered ≤ p ∧ p < s.entered + n) (s.enter n).buckets := by
  induction n generalizing s positions with
  | zero =>
      refine h.congr (fun p => ?_) fun _ _ => rfl
      constructor
      · rintro (hp | hp)
        · exact hp
        · omega
      · exact .inl
  | succ n ih =>
      -- the position that is entered first counts as one of the given ones for the others
      have hset := h.set hlater (e := s.entered) (by rw [hroom]; exact bucketOf_lt _)
      rw [State.enter]
      refine (ih hset (fun p hp => ?_) ?_).congr (fun p => ?_) fun _ _ => rfl
      · rcases hp with hp | rfl
        · exact Nat.lt_succ_of_lt (hlater p hp)
        · exact Nat.lt_succ_self _
      · rw [Array.size_setIfInBounds, hroom]
      · constructor
        · rintro (hp | ⟨hle, hlt⟩)
          · exact .inl (.inl hp)
          · rcases Nat.eq_or_lt_of_le hle with heq | hlt'
            · exact .inl (.inr heq.symm)
            · exact .inr ⟨hlt', by simp only; omega⟩
        · rintro ((hp | rfl) | ⟨hle, hlt⟩)
          · exact .inl hp
          · exact .inr ⟨Nat.le_refl _, by omega⟩
          · simp only at hle hlt
            exact .inr ⟨by omega, by omega⟩

/-! ### Buckets and history -/

namespace State

/-- The buckets are those of the history: of the item starts exactly those are entered that are
three bytes or more before the end of the data, and what has not been entered is item starts
throughout. -/
structure Entered (h : History) (s : State) : Prop where
  /-- There is a place for every bucket. -/
  room : s.buckets.size = bucketCount
  /-- Items start within the data. -/
  starts_lt : ∀ p ∈ h.starts, p < h.output.length
  /-- Nothing is entered before it is written. -/
  entered_le : s.entered ≤ h.output.length
  /-- What has not been passed yet is item starts. -/
  pending : ∀ p, s.entered ≤ p → p < h.output.length → p ∈ h.starts
  /-- An item start is passed as soon as its three bytes are written. -/
  entered_iff : ∀ p ∈ h.starts, (p < s.entered ↔ p + 3 ≤ h.output.length)
  /-- Every bucket holds its latest item start. -/
  latest : Latest h.bucketAt h.IsSource s.buckets

namespace Entered

variable {f : Frame} {h h' : History} {s s' : State}

theorem start (f : Frame) (cursor : Nat) : (f.start cursor).Entered .empty where
  room := Array.size_replicate
  starts_lt := fun p hp => by simp [History.empty] at hp
  entered_le := Nat.le_refl _
  pending := fun p _ hp => by simp [History.empty] at hp
  entered_iff := fun p hp => by simp [History.empty] at hp
  latest := fun p hp => by simp [History.IsSource, History.empty] at hp

/-- If the next `n` positions are the ones that become item starts with three bytes, entering them
brings the buckets up to date. -/
theorem latest_enter (hentered : s.Entered h) (hextends : h.output <+: h'.output)
    (hwritten : s'.HasWritten f h'.output) (hbuckets : s'.buckets = s.buckets)
    (hnext : s'.entered = s.entered) {n : Nat}
    (hsource : ∀ p, h'.IsSource p ↔ h.IsSource p ∨ s.entered ≤ p ∧ p < s.entered + n) :
    Latest h'.bucketAt h'.IsSource (s'.enter n).buckets := by
  have hword : ∀ p, h'.IsSource p → bucketOf (outputWord s'.output p) = h'.bucketAt p := by
    intro p hp
    rw [hwritten.outputWord_eq hp.2, History.bucketAt]
  have hold : Latest (fun p => bucketOf (outputWord s'.output p)) h.IsSource s'.buckets := by
    rw [hbuckets]
    refine hentered.latest.congr (fun _ => Iff.rfl) fun p hp => ?_
    rw [hword p ((hsource p).mpr (.inl hp)), History.bucketAt_eq_of_extends hextends hp.2]
  have hbefore : ∀ p, h.IsSource p → p < s'.entered := by
    intro p hp
    rw [hnext]
    exact (hentered.entered_iff p hp.1).mpr hp.2
  have hnew := Latest.enter n hold hbefore (by rw [hbuckets]; exact hentered.room)
  rw [hnext] at hnew
  exact hnew.congr hsource fun p hp => (hword p ((hsource p).mpr hp)).symm

/-- A literal makes at most one item start complete, the one two bytes before it. -/
theorem isSource_append_iff (hentered : s.Entered h) {byte : UInt8} {n p : Nat}
    (hn : s.entered + n = max s.entered (h.output.length - 1)) :
    (h.append byte).IsSource p ↔ h.IsSource p ∨ s.entered ≤ p ∧ p < s.entered + n := by
  rw [History.IsSource, History.IsSource, History.mem_starts_append, History.length_append]
  constructor
  · rintro ⟨rfl | hp, hend⟩
    · omega
    · have := hentered.entered_iff p hp
      by_cases hold : p + 3 ≤ h.output.length
      · exact .inl ⟨hp, hold⟩
      · exact .inr (by omega)
  · rintro (⟨hp, hend⟩ | ⟨hge, hlt⟩)
    · exact ⟨.inr hp, by omega⟩
    · exact ⟨.inr (hentered.pending p hge (by omega)), by omega⟩

theorem append (hentered : s.Entered h) {byte : UInt8}
    (hwritten : s'.HasWritten f (h.append byte).output) (hbuckets : s'.buckets = s.buckets)
    (hnext : s'.entered = s.entered) {n : Nat}
    (hn : s.entered + n = max s.entered (h.output.length - 1)) :
    (s'.enter n).Entered (h.append byte) := by
  have hle := hentered.entered_le
  refine ⟨by rw [size_buckets_enter, hbuckets, hentered.room], ?_, ?_, ?_, ?_, ?_⟩
  · intro p hp
    rw [History.length_append]
    rcases h.mem_starts_append.mp hp with rfl | hp
    · omega
    · have := hentered.starts_lt p hp
      omega
  · rw [entered_enter, hnext, History.length_append]
    omega
  · intro p hge hlt
    rw [entered_enter, hnext] at hge
    rw [History.length_append] at hlt
    rw [History.mem_starts_append]
    by_cases hlast : p = h.output.length
    · exact .inl hlast
    · exact .inr (hentered.pending p (by omega) (by omega))
  · intro p hp
    rw [entered_enter, hnext, History.length_append]
    rcases h.mem_starts_append.mp hp with rfl | hp
    · omega
    · have := hentered.starts_lt p hp
      have := hentered.entered_iff p hp
      omega
  · exact hentered.latest_enter (List.prefix_append _ _) hwritten hbuckets hnext fun _ =>
      hentered.isSource_append_iff hn

/-- A match of three bytes or more makes all item starts up to its own complete. -/
theorem isSource_copy_iff (hentered : s.Entered h) {source length : Nat} (hlong : 3 ≤ length)
    {n p : Nat} (hn : s.entered + n = h.output.length + 1) :
    (h.copy source length).IsSource p ↔ h.IsSource p ∨ s.entered ≤ p ∧ p < s.entered + n := by
  rw [History.IsSource, History.IsSource, History.mem_starts_copy, History.length_copy]
  have hle := hentered.entered_le
  constructor
  · rintro ⟨rfl | hp, hend⟩
    · exact .inr (by omega)
    · have := hentered.starts_lt p hp
      by_cases hold : p < s.entered
      · exact .inl ⟨hp, (hentered.entered_iff p hp).mp hold⟩
      · exact .inr (by omega)
  · rintro (⟨hp, hend⟩ | ⟨hge, hlt⟩)
    · exact ⟨.inr hp, by omega⟩
    · by_cases hlast : p = h.output.length
      · exact ⟨.inl hlast, by omega⟩
      · exact ⟨.inr (hentered.pending p hge (by omega)), by omega⟩

/-- Behind a match nothing is left to enter, since the positions within it are passed over. -/
theorem copy (hentered : s.Entered h) {source length : Nat} (hlong : 3 ≤ length)
    (hwritten : s'.HasWritten f (h.copy source length).output) (hbuckets : s'.buckets = s.buckets)
    (hnext : s'.entered = s.entered) {n : Nat} (hn : s.entered + n = h.output.length + 1) :
    State.Entered (h.copy source length) { s'.enter n with entered := s'.written } := by
  have hstarts : ∀ p ∈ (h.copy source length).starts, p ≤ h.output.length := by
    intro p hp
    rcases h.mem_starts_copy.mp hp with rfl | hp
    · exact Nat.le_refl _
    · exact Nat.le_of_lt (hentered.starts_lt p hp)
  refine ⟨by simp only [size_buckets_enter, hbuckets, hentered.room], ?_, ?_, ?_, ?_, ?_⟩
  · intro p hp
    have := hstarts p hp
    rw [History.length_copy]
    omega
  · exact Nat.le_of_eq hwritten.written
  · intro p hge hlt
    simp only [hwritten.written] at hge
    omega
  · intro p hp
    have := hstarts p hp
    simp only [hwritten.written, History.length_copy]
    omega
  · exact hentered.latest_enter (prefix_repeatBack _ _ _) hwritten hbuckets hnext fun _ =>
      hentered.isSource_copy_iff hlong hn

end Entered

end State

end ResolverRecovery.Codec.QuickLz
