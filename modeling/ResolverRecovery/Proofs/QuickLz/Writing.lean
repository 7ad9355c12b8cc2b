import ResolverRecovery.Proofs.QuickLz.Bounds
import ResolverRecovery.Proofs.QuickLz.Parts

/-!
# How the output is written

The output has its full length from the start and is filled with zeros, so that its length says
nothing of whether all of it has been written.  What does is the list of writes: bytes are written
one after the other from the first position on, and none is written again.  A literal is written
with the byte of the stream at the cursor, and a match with as many bytes as it asks for, each of
them taken from a position before.

Behind the write position there are the zeros of the start.  The decoder may look at them when it
enters a position whose three bytes are not all written yet, but it never copies them: the origin of
a byte leads back, from copy to copy, to a byte of the stream.

## Main definitions

* `Origin`, `Write`, `replay`: single writes, and the output that they make.
* `Frame.stepWrites`, `Frame.writes`: the writes of a step and of a run.
* `State.Appends`: a part of the decoding consists in writes from the write position on.
* `Explains`: the data is what the writes have made of it.

## Main statements

* `getElem?_replay_of_mem`: what has been written in order is there in the end.
* `Frame.step_appends`, `Frame.run_appends`: steps and runs write in order.
* `Explains.exists_literal`: every byte of the data is a literal or a copy of one.
* `decodeBody_writes_once`: every byte of the data is written once and is not changed any more.
-/

namespace ResolverRecovery.Codec.QuickLz

/-! ### Writes -/

/-- Where a byte comes from. -/
inductive Origin where
  /-- It is the byte at a position of the stream. -/
  | stream (position : Nat)
  /-- It is the byte at a position of the output. -/
  | output (position : Nat)
  deriving DecidableEq

/-- A byte that is written. -/
structure Write where
  /-- The position of the output. -/
  target : Nat
  origin : Origin
  deriving DecidableEq

namespace Write

/-- The byte that is written into an output; it is zero if it is not there. -/
def byte (f : Frame) (output : Array UInt8) (w : Write) : UInt8 :=
  match w.origin with
  | .stream position => f.source.getD position 0
  | .output position => output.getD position 0

/-- The byte is there: it lies within the stream, or in the output before the target. -/
def Grounded (f : Frame) (w : Write) : Prop :=
  match w.origin with
  | .stream position => position < f.source.size
  | .output position => position < w.target

/-- Outputs that agree before the target have the same byte for it. -/
theorem Grounded.byte_eq {f : Frame} {output output' : Array UInt8} {w : Write}
    (h : w.Grounded f) (hagree : ∀ i < w.target, output[i]? = output'[i]?) :
    w.byte f output = w.byte f output' := by
  obtain ⟨target, position | position⟩ := w
  · rfl
  · show output.getD position 0 = output'.getD position 0
    rw [Array.getD_eq_getD_getElem?, Array.getD_eq_getD_getElem?, hagree position h]

end Write

/-- The output after some writes. -/
def replay (f : Frame) : List Write → Array UInt8 → Array UInt8
  | [], output => output
  | w :: ws, output => replay f ws (output.setIfInBounds w.target (w.byte f output))

section replay

variable {f : Frame} {output : Array UInt8} {ws : List Write} {w : Write}

theorem replay_append (f : Frame) (ws ws' : List Write) (output : Array UInt8) :
    replay f (ws ++ ws') output = replay f ws' (replay f ws output) := by
  induction ws generalizing output with
  | nil => rfl
  | cons w ws ih => exact ih _

/-- A position that nothing is written to keeps its byte. -/
theorem getElem?_replay_of_ne {i : Nat} (hne : ∀ w ∈ ws, w.target ≠ i) :
    (replay f ws output)[i]? = output[i]? := by
  induction ws generalizing output with
  | nil => rfl
  | cons w ws ih =>
      obtain ⟨hfirst, hrest⟩ := List.forall_mem_cons.mp hne
      rw [replay, ih hrest, Array.getElem?_setIfInBounds_ne hfirst]

/-- What has been written in order is there in the end, and so is what it was copied from. -/
theorem getElem?_replay_of_mem (horder : ws.Pairwise (·.target < ·.target))
    (hgrounded : ∀ w ∈ ws, w.Grounded f) (hroom : ∀ w ∈ ws, w.target < output.size) (hw : w ∈ ws) :
    (replay f ws output)[w.target]? = some (w.byte f (replay f ws output)) := by
  induction ws generalizing output with
  | nil => cases hw
  | cons first ws ih =>
      obtain ⟨hbehind, horder⟩ := List.pairwise_cons.mp horder
      obtain ⟨hfirst, hgrounded⟩ := List.forall_mem_cons.mp hgrounded
      obtain ⟨hplace, hroom⟩ := List.forall_mem_cons.mp hroom
      rcases List.mem_cons.mp hw with rfl | hrest
      · have hwritten : (replay f (w :: ws) output)[w.target]? = some (w.byte f output) := by
          rw [replay, getElem?_replay_of_ne fun w' hw' => Nat.ne_of_gt (hbehind w' hw'),
            Array.getElem?_setIfInBounds, if_pos rfl, if_pos hplace]
        -- nothing is written before the target, so that the byte can be looked up in the end
        have hagree : ∀ i < w.target, output[i]? = (replay f (w :: ws) output)[i]? := by
          intro i hi
          refine (getElem?_replay_of_ne (List.forall_mem_cons.mpr ⟨Nat.ne_of_gt hi, ?_⟩)).symm
          exact fun w' hw' => Nat.ne_of_gt (Nat.lt_trans hi (hbehind w' hw'))
        rw [hwritten, hfirst.byte_eq hagree]
      · refine ih horder hgrounded (fun w' hw' => ?_) hrest
        rw [Array.size_setIfInBounds]
        exact hroom w' hw'

end replay

/-! ### The writes of a copy -/

/-- The writes of a copy of `n` bytes within the output. -/
def copyWrites : Nat → Nat → Nat → List Write
  | 0, _, _ => []
  | n + 1, source, target => ⟨target, .output source⟩ :: copyWrites n (source + 1) (target + 1)

@[simp] theorem length_copyWrites (n source target : Nat) :
    (copyWrites n source target).length = n := by
  induction n generalizing source target with
  | zero => rfl
  | succ n ih => rw [copyWrites, List.length_cons, ih]

theorem targets_copyWrites (n source target : Nat) :
    (copyWrites n source target).map Write.target = List.range' target n := by
  induction n generalizing source target with
  | zero => rfl
  | succ n ih => rw [copyWrites, List.map_cons, ih, List.range'_succ]

theorem replay_copyWrites (f : Frame) (n source target : Nat) (output : Array UInt8) :
    replay f (copyWrites n source target) output = copyForward n source target output := by
  induction n generalizing source target output with
  | zero => rfl
  | succ n ih => exact ih _ _ _

/-- Source and target move on together, so that the source stays before the target. -/
theorem grounded_copyWrites {f : Frame} {n source target : Nat} (hsource : source < target) :
    ∀ w ∈ copyWrites n source target, w.Grounded f := by
  induction n generalizing source target with
  | zero => exact nofun
  | succ n ih => exact List.forall_mem_cons.mpr ⟨hsource, ih (Nat.succ_lt_succ hsource)⟩

/-! ### Writing from the write position on -/

/-- The writes lead from one state's output to the other's.  They go to one position after the other
from the write position on, and move it behind the last of them. -/
structure State.Appends (f : Frame) (s : State) (ws : List Write) (t : State) : Prop where
  output_eq : t.output = replay f ws s.output
  written_eq : t.written = s.written + ws.length
  targets_eq : ws.map Write.target = List.range' s.written ws.length
  grounded : ∀ w ∈ ws, w.Grounded f

namespace State.Appends

variable {f : Frame} {s t u : State} {ws ws' : List Write}

theorem nil (hwritten : t.written = s.written) (houtput : t.output = s.output) :
    s.Appends f [] t :=
  ⟨houtput, hwritten, rfl, nofun⟩

theorem trans (h : s.Appends f ws t) (h' : t.Appends f ws' u) : s.Appends f (ws ++ ws') u where
  output_eq := by rw [h'.output_eq, h.output_eq, replay_append]
  written_eq := by rw [h'.written_eq, h.written_eq, List.length_append, Nat.add_assoc]
  targets_eq := by
    rw [List.map_append, h.targets_eq, h'.targets_eq, h.written_eq, List.length_append,
      ← List.range'_append_1]
  grounded := List.forall_mem_append.mpr ⟨h.grounded, h'.grounded⟩

/-- Cursor, control word, look-ahead and buckets are of no concern. -/
theorem congr (h : s.Appends f ws t) (hwritten : u.written = t.written)
    (houtput : u.output = t.output) : s.Appends f ws u :=
  ⟨houtput.trans h.output_eq, hwritten.trans h.written_eq, h.targets_eq, h.grounded⟩

theorem mem_targets (h : s.Appends f ws t) {w : Write} (hw : w ∈ ws) :
    s.written ≤ w.target ∧ w.target < t.written := by
  have hmem := List.mem_map_of_mem (f := Write.target) hw
  rw [h.targets_eq, List.mem_range'_1, ← h.written_eq] at hmem
  exact hmem

/-- What is written is not changed any more, and what is behind it not yet. -/
theorem getElem?_eq (h : s.Appends f ws t) {i : Nat} (hi : i < s.written ∨ t.written ≤ i) :
    t.output[i]? = s.output[i]? := by
  rw [h.output_eq]
  refine getElem?_replay_of_ne fun w hw => ?_
  obtain ⟨hfirst, hlast⟩ := h.mem_targets hw
  omega

/-- Every byte that is written is there in the end. -/
theorem getElem?_target (h : s.Appends f ws t) (hroom : t.written ≤ s.output.size) {w : Write}
    (hw : w ∈ ws) : t.output[w.target]? = some (w.byte f t.output) := by
  have horder : ws.Pairwise (·.target < ·.target) := by
    rw [← List.pairwise_map (f := Write.target) (R := (· < ·)), h.targets_eq]
    exact List.pairwise_lt_range' 1
  rw [h.output_eq]
  refine getElem?_replay_of_mem horder h.grounded (fun w' hw' => ?_) hw
  exact Nat.lt_of_lt_of_le (h.mem_targets hw').2 hroom

end State.Appends

/-! ### The writes of a run -/

namespace Frame

/-- The write of a literal. -/
def literalWrites (f : Frame) (s : State) : List Write :=
  match f.literal s with
  | .error _ _ => []
  | .ok _ _ => [⟨s.written, .stream s.cursor⟩]

/-- The writes of a match. -/
def matchWrites (f : Frame) (s : State) : List Write :=
  match f.copyMatch s with
  | .error _ _ => []
  | .ok _ _ => copyWrites (f.matchLength s) (f.matchSource s) s.written

/-- The writes of the literals at the end, as far as they go. -/
def tailWrites (f : Frame) : Nat → State → List Write
  | 0, _ => []
  | n + 1, s =>
    f.literalWrites s.passControl ++
      match f.literal s.passControl with
      | .error _ _ => []
      | .ok _ t => tailWrites f n t.shift

/-- The writes of a step, up to a fault if there is one. -/
def stepWrites (f : Frame) (s : State) : List Write :=
  match f.refill s with
  | .error _ _ => []
  | .ok _ t =>
    if t.control % 2 = 1 then f.matchWrites t.shift
    else if f.inBody t then f.literalWrites t
    else f.tailWrites (f.size - t.written) t

/-- The writes of a run, up to a fault if there is one. -/
def writes (f : Frame) (s : State) : List Write :=
  f.stepWrites s ++
    match _h : f.step s with
    | .ok false t => writes f t
    | _ => []
termination_by f.budget s
decreasing_by exact step_decreases _h

variable {f : Frame} {s t : State}

/-- Reading a control word writes nothing. -/
theorem refill_appends (f : Frame) (s : State) : Ends (s.Appends f []) (f.refill s) := by
  rcases f.refill_cases s with ⟨-, hsame⟩ | ⟨-, -, hcut⟩ | ⟨-, -, hread⟩
  · rw [hsame]
    exact .nil rfl rfl
  · rw [hcut]
    exact .nil rfl rfl
  · rw [hread]
    exact .nil rfl rfl

/-- A literal writes the byte at the cursor, or nothing. -/
theorem literal_appends (f : Frame) (s : State) :
    Ends (s.Appends f (f.literalWrites s)) (f.literal s) := by
  unfold literalWrites
  rcases f.literal_cases s with ⟨-, hend⟩ | ⟨-, -, hfull⟩ | ⟨hcursor, -, hread⟩
  · rw [hend]
    exact .nil rfl rfl
  · rw [hfull]
    exact .nil rfl rfl
  · rw [hread]
    exact ⟨rfl, rfl, rfl, List.forall_mem_singleton.mpr hcursor⟩

/-- A match writes as many bytes as it asks for, or nothing. -/
theorem copyMatch_appends (f : Frame) (s : State) :
    Ends (s.Appends f (f.matchWrites s)) (f.copyMatch s) := by
  unfold matchWrites
  rcases copyMatch_cases f s with ⟨fault, hrefused⟩ | ⟨hsource, -, hcopied⟩
  · rw [hrefused]
    exact .nil rfl rfl
  · rw [hcopied]
    refine ⟨?_, ?_, ?_, grounded_copyWrites hsource⟩
    · rw [output_afterMatch, replay_copyWrites]
    · rw [written_afterMatch, length_copyWrites]
    · rw [targets_copyWrites, length_copyWrites]

/-- The literals at the end are written one by one. -/
theorem literals_appends (f : Frame) (n : Nat) (s : State) :
    Ends (s.Appends f (f.tailWrites n s)) (f.literals n s) := by
  induction n generalizing s with
  | zero => exact .nil rfl rfl
  | succ n ih =>
      have hpassed : s.Appends f [] s.passControl :=
        .nil s.written_passControl s.output_passControl
      have hliteral := (f.literal_appends s.passControl).imp fun t ht => hpassed.trans ht
      rw [literals_succ, tailWrites]
      cases hresult : f.literal s.passControl with
      | error fault t =>
          rw [hresult] at hliteral
          rw [List.append_nil]
          exact hliteral
      | ok _ t =>
          rw [hresult] at hliteral
          have hfirst := State.Appends.congr (u := t.shift) hliteral rfl rfl
          exact (ih t.shift).imp fun u hrest => hfirst.trans hrest

/-- A step writes from the write position on, also if it meets a fault. -/
theorem step_appends (f : Frame) (s : State) :
    Ends (s.Appends f (f.stepWrites s)) (f.step s) := by
  have hrefill := f.refill_appends s
  rw [step_eq, stepWrites]
  cases hresult : f.refill s with
  | error fault t =>
      rw [hresult] at hrefill
      exact hrefill
  | ok _ t =>
      rw [hresult] at hrefill
      dsimp only [andThen]
      by_cases hodd : t.control % 2 = 1
      · have hshift := State.Appends.congr (u := t.shift) hrefill rfl rfl
        have hmatch := (f.copyMatch_appends t.shift).imp fun u hu => hshift.trans hu
        rw [if_pos hodd, if_pos hodd]
        exact Ends.andThen hmatch fun u hu => hu.congr rfl rfl
      · rw [if_neg hodd, if_neg hodd]
        by_cases hbody : f.inBody t
        · have hliteral := (f.literal_appends t).imp fun u hu => State.Appends.trans hrefill hu
          rw [if_pos hbody, if_pos hbody]
          exact Ends.andThen hliteral fun u hu =>
            hu.congr (f.written_afterLiteral u.shift) (f.output_afterLiteral u.shift)
        · have htail := (f.literals_appends (f.size - t.written) t).imp
            fun u hu => State.Appends.trans hrefill hu
          rw [if_neg hbody, if_neg hbody]
          exact Ends.andThen htail fun u hu => hu

theorem writes_of_incomplete (h : f.step s = .ok false t) :
    f.writes s = f.stepWrites s ++ f.writes t := by
  rw [writes]
  split <;> simp_all

theorem writes_of_last (h : ∀ t, f.step s ≠ .ok false t) : f.writes s = f.stepWrites s := by
  rw [writes]
  split <;> simp_all

/-- A run writes from the write position on, also if it meets a fault. -/
theorem run_appends (f : Frame) (s : State) : Ends (s.Appends f (f.writes s)) (f.run s) := by
  have hend := f.step_appends s
  fun_induction f.run s with
  | case1 s fault t hstep =>
      rw [hstep] at hend
      rw [writes_of_last (by simp [hstep])]
      exact hend
  | case2 s t hstep =>
      rw [hstep] at hend
      rw [writes_of_last (by simp [hstep])]
      exact hend
  | case3 s t hstep ih =>
      rw [hstep] at hend
      rw [writes_of_incomplete hstep]
      exact (ih (f.step_appends t)).imp fun u hu => State.Appends.trans hend hu

/-- A run that is taken up at a later state ends as it would have anyway. -/
theorem Reaches.run_eq (h : f.Reaches s t) : f.run t = f.run s := by
  induction h with
  | refl => rfl
  | step _ hstep ih => exact (State.run_of_step_false hstep).symm.trans ih

end Frame

/-! ### What has been written in the end -/

/-- The data is what the writes have made of it.  They go to every position once, in order, and what
they have written is there. -/
structure Explains (f : Frame) (ws : List Write) (out : List UInt8) : Prop where
  length_eq : out.length = f.size
  targets_eq : ws.map Write.target = List.range f.size
  grounded : ∀ w ∈ ws, w.Grounded f
  byte_eq : ∀ w ∈ ws, out[w.target]? = some (w.byte f out.toArray)

/-- Every byte of the data is a literal or, from copy to copy, a copy of one. -/
theorem Explains.exists_literal {f : Frame} {ws : List Write} {out : List UInt8}
    (h : Explains f ws out) {i : Nat} (hi : i < f.size) :
    ∃ w ∈ ws, ∃ p < f.source.size, w.origin = .stream p ∧ out[i]? = f.source[p]? := by
  induction i using Nat.strongRecOn with
  | ind i ih =>
      have hmem : i ∈ ws.map Write.target := h.targets_eq ▸ List.mem_range.mpr hi
      obtain ⟨w, hw, rfl⟩ := List.mem_map.mp hmem
      have hgrounded := h.grounded w hw
      have hbyte := h.byte_eq w hw
      obtain ⟨target, p | j⟩ := w
      · refine ⟨_, hw, p, hgrounded, rfl, ?_⟩
        rw [hbyte, Array.getElem?_eq_getElem hgrounded]
        exact congrArg some (Array.getElem_eq_getD 0).symm
      · obtain ⟨w', hw', p, hp, horigin, hsource⟩ := ih j hgrounded (Nat.lt_trans hgrounded hi)
        refine ⟨w', hw', p, hp, horigin, ?_⟩
        have hj : j < out.length := h.length_eq.symm ▸ Nat.lt_trans hgrounded hi
        rw [hbyte, ← hsource, List.getElem?_eq_getElem hj]
        exact congrArg some (Array.getElem_eq_getD 0).symm

/-- What is written from a state without a write up to one where the output is complete. -/
theorem State.Appends.explains {f : Frame} {s t : State} {ws : List Write}
    (h : s.Appends f ws t) (hstart : s.written = 0) (hcomplete : t.written = f.size)
    (hsize : s.output.size = f.size) (hsize' : t.output.size = f.size) :
    Explains f ws t.output.toList where
  length_eq := hsize'
  targets_eq := by
    have hlength := h.written_eq
    rw [hstart, hcomplete, Nat.zero_add] at hlength
    rw [h.targets_eq, hstart, ← hlength, List.range_eq_range']
  grounded := h.grounded
  byte_eq w hw := by
    have hbyte := h.getElem?_target (by omega) hw
    rw [Array.getElem?_toList]
    exact hbyte

/-- A step writes one byte after the other from the write position on, as far as there is room, and
leaves alone what is in front of them and what is behind. -/
structure State.Orderly (f : Frame) (s : State) : Prop where
  appends : Ends (s.Appends f (f.stepWrites s)) (f.step s)
  room : Ends (fun t => t.written ≤ f.size ∧ t.output.size = f.size) (f.step s)
  fixed : Ends (fun t => ∀ i, i < s.written ∨ t.written ≤ i → t.output[i]? = s.output[i]?)
    (f.step s)

theorem State.InBounds.orderly {f : Frame} {s : State} (h : s.InBounds f) : s.Orderly f where
  appends := f.step_appends s
  room := (Frame.step_inBounds h).imp fun _ ht => ⟨ht.written_le, ht.size_output⟩
  fixed := (f.step_appends s).imp fun _ ht _ hi => ht.getElem?_eq hi

/-- The writes of the body of a stream. -/
def Header.bodyWrites (h : Header) (level : Level) (data : List UInt8) : List Write :=
  (h.frame level data).writes ((h.frame level data).start h.length)

/-- How the data of a body has been written. -/
structure Header.WritesOnce (h : Header) (level : Level) (data out : List UInt8) : Prop where
  /-- All of it is written when the run ends. -/
  complete : ∃ s, (h.frame level data).run ((h.frame level data).start h.length) = .ok () s ∧
    s.written = h.dataSize ∧ out = s.output.toList
  explains : Explains (h.frame level data) (h.bodyWrites level data) out
  /-- No byte is left from the start. -/
  literal : ∀ i < h.dataSize, ∃ w ∈ h.bodyWrites level data, ∃ p < data.length,
    w.origin = .stream p ∧ out[i]? = data[p]?
  /-- What is written on the way is not changed any more. -/
  final : ∀ s, (h.frame level data).Reaches ((h.frame level data).start h.length) s →
    ∀ i < s.written, out[i]? = s.output[i]?

theorem writesOnce_of_decodeBody {h : Header} {level : Level} {data out : List UInt8}
    (hbody : decodeBody h level data = .ok out) : h.WritesOnce level data out := by
  obtain ⟨s, hrun, rfl⟩ := run_of_decodeBody hbody
  have hstart := State.InBounds.start (h.frame level data) h.length
  have hcomplete := Frame.written_of_run hstart hrun
  have hend := (Frame.run_inBounds hstart).of_eq_ok hrun
  have hexplains : Explains (h.frame level data) (h.bodyWrites level data) s.output.toList :=
    State.Appends.explains ((Frame.run_appends _ _).of_eq_ok hrun) rfl hcomplete
      hstart.size_output hend.size_output
  refine ⟨⟨s, hrun, hcomplete, rfl⟩, hexplains, fun i hi => ?_, fun t hreaches i hi => ?_⟩
  · obtain ⟨w, hw, p, hp, horigin, hbyte⟩ := hexplains.exists_literal hi
    exact ⟨w, hw, p, hp, horigin, hbyte.trans List.getElem?_toArray⟩
  · have hrest := (Frame.run_appends _ t).of_eq_ok (hreaches.run_eq.trans hrun)
    rw [Array.getElem?_toList]
    exact hrest.getElem?_eq (.inl hi)

/-- Every byte of the data of a body is written once and is not changed any more.  A step writes
from the write position on and changes nothing else: a literal is one byte, and a match as many as
it asks for.  And a body is only decoded to data of which every byte has been written. -/
theorem decodeBody_writes_once (h : Header) (level : Level) (data : List UInt8) :
    (∀ s, (h.frame level data).Reaches ((h.frame level data).start h.length) s →
      s.Orderly (h.frame level data)) ∧
      (∀ s t, (h.frame level data).literal s = .ok () t →
        s.Appends (h.frame level data) [⟨s.written, .stream s.cursor⟩] t) ∧
      (∀ s t, (h.frame level data).copyMatch s = .ok () t →
        s.Appends (h.frame level data)
          (copyWrites ((h.frame level data).matchLength s) ((h.frame level data).matchSource s)
            s.written) t) ∧
      ∀ out, decodeBody h level data = .ok out → h.WritesOnce level data out := by
  refine ⟨fun s hreaches => ?_, fun s t hliteral => ?_, fun s t hmatch => ?_,
    fun out hbody => writesOnce_of_decodeBody hbody⟩
  · exact (hreaches.inBounds (.start _ _)).orderly
  · have happends := Frame.literal_appends (h.frame level data) s
    rw [Frame.literalWrites, hliteral] at happends
    exact happends
  · have happends := Frame.copyMatch_appends (h.frame level data) s
    rw [Frame.matchWrites, hmatch] at happends
    exact happends

/-- A stream that has been cut within its last match, which copies ten bytes, one from another, from
the literal before it. -/
theorem decodeBody_writes_once_cutStream :
    (cutHeader.frame .three cutStream).Reaches
        ((cutHeader.frame .three cutStream).start cutHeader.length)
        ((cutHeader.frame .three cutStream).start cutHeader.length) ∧
      ((cutHeader.frame .three cutStream).start cutHeader.length).Orderly
        (cutHeader.frame .three cutStream) ∧
      (∃ s t, (cutHeader.frame .three cutStream).literal s = .ok () t ∧
        s.Appends (cutHeader.frame .three cutStream) [⟨0, .stream 7⟩] t) ∧
      (∃ s t, (cutHeader.frame .three cutStream).copyMatch s = .ok () t ∧
        s.Appends (cutHeader.frame .three cutStream) (copyWrites 10 0 1) t) ∧
      decodeBody cutHeader .three cutStream = .ok (List.replicate 11 0x61) ∧
      cutHeader.bodyWrites .three cutStream = ⟨0, .stream 7⟩ :: copyWrites 10 0 1 ∧
      cutHeader.WritesOnce .three cutStream (List.replicate 11 0x61) := by
  have hbody : decodeBody cutHeader .three cutStream = .ok (List.replicate 11 0x61) := by
    decide +kernel
  have hwrites : cutHeader.bodyWrites .three cutStream = ⟨0, .stream 7⟩ :: copyWrites 10 0 1 := by
    decide +kernel
  obtain ⟨hsteps, hliteral, hcopy, honce⟩ :=
    decodeBody_writes_once cutHeader .three cutStream
  have hread : (cutHeader.frame .three cutStream).literal
      ((cutHeader.frame .three cutStream).start 7) =
        .ok () (((cutHeader.frame .three cutStream).start 7).write 0x61) :=
    Frame.literal_eq rfl (by decide)
  -- the match is read from a state in which the literal before it is written
  have hmatch := Frame.copyMatch_eq (cutHeader.frame .three cutStream)
    { (cutHeader.frame .three cutStream).start 8 with written := 1, lookahead := 0x5E }
  rw [show Frame.matchFault? _ _ = none from rfl] at hmatch
  exact ⟨.refl, hsteps _ .refl, ⟨_, _, hread, hliteral _ _ hread⟩,
    ⟨_, _, hmatch, hcopy _ _ hmatch⟩, hbody, hwrites, honce _ hbody⟩

end ResolverRecovery.Codec.QuickLz
