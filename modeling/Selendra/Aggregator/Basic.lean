import Mathlib
import Selendra.Collections.HashSet

/-! # The block signature aggregator

`BlockSignatureAggregator` of `aggregator/src/aggregator.rs` hands out the multisigned
hashes in the order their aggregations were started. It keeps the started hashes in a queue,
the multisignatures delivered by the reliable multicast in a map, and every hash ever started
in a set that is never cleared. `try_pop_hash` takes the front hash and, when no
multisignature for it has arrived, puts it back. `IO` (here `Io`) drives it:
`start_aggregation` starts an aggregation and ignores a hash started before,
`wait_for_next_signature` delivers a multisignature, and the loop of `next_multisigned_hash`
tries to pop between deliveries. A run here is any interleaving of these three calls.

The instant of the last change, the status report and the multicast itself are left out.

The result: the hashes handed out are a prefix of the distinct started hashes in the order of
their first start, each once and with the multisignature last delivered for it; a pop
succeeds exactly when the front hash has a multisignature; and a hash started again changes
nothing. -/

namespace Selendra.Aggregator

inductive AggregatorError
  | noHashFound
  | duplicateHash
deriving DecidableEq, Repr

structure BlockSignatureAggregator (H PMS : Type) where
  signatures : AList (fun _ : H => PMS)
  hashQueue : List H
  startedHashes : HashSet H

/-- The calls a run interleaves: `on_start` from `start_aggregation`, `on_multisigned_hash`
from `wait_for_next_signature`, and `try_pop_hash` from `next_multisigned_hash`. -/
inductive Event (H PMS : Type)
  | startAggregation (hash : H)
  | multisignedHash (hash : H) (signature : PMS)
  | tryPopHash

variable {H PMS : Type} [DecidableEq H]

namespace BlockSignatureAggregator

def new : BlockSignatureAggregator H PMS := ⟨∅, [], ∅⟩

def onStart (agg : BlockSignatureAggregator H PMS) (hash : H) :
    Except AggregatorError (BlockSignatureAggregator H PMS) :=
  if hash ∈ agg.startedHashes then .error .duplicateHash
  else .ok { agg with startedHashes := agg.startedHashes.insert hash,
                      hashQueue := agg.hashQueue ++ [hash] }

def onMultisignedHash (agg : BlockSignatureAggregator H PMS) (hash : H) (signature : PMS) :
    BlockSignatureAggregator H PMS :=
  { agg with signatures := agg.signatures.insert hash signature }

/-- `try_pop_hash`: the front hash with its multisignature, which leaves the map; without a
multisignature the hash is pushed back to the front. -/
def tryPopHash (agg : BlockSignatureAggregator H PMS) :
    BlockSignatureAggregator H PMS × Except AggregatorError (H × PMS) :=
  match agg.hashQueue with
  | [] => (agg, .error .noHashFound)
  | hash :: rest =>
    match agg.signatures.lookup hash with
    | some multisignature =>
      ({ agg with signatures := agg.signatures.erase hash, hashQueue := rest },
        .ok (hash, multisignature))
    | none => ({ agg with hashQueue := hash :: rest }, .error .noHashFound)

theorem tryPopHash_of_nil {agg : BlockSignatureAggregator H PMS} (hq : agg.hashQueue = []) :
    agg.tryPopHash = (agg, .error .noHashFound) := by
  simp [tryPopHash, hq]

/-- Without a multisignature for the front hash, the pop leaves the aggregator as it was. -/
theorem tryPopHash_of_none {agg : BlockSignatureAggregator H PMS} {front : H} {rest : List H}
    (hq : agg.hashQueue = front :: rest) (hl : agg.signatures.lookup front = none) :
    agg.tryPopHash = (agg, .error .noHashFound) := by
  simp only [tryPopHash, hq, hl]
  rw [← hq]

theorem tryPopHash_of_some {agg : BlockSignatureAggregator H PMS} {front : H} {rest : List H}
    {multisignature : PMS} (hq : agg.hashQueue = front :: rest)
    (hl : agg.signatures.lookup front = some multisignature) :
    agg.tryPopHash = ({ agg with signatures := agg.signatures.erase front, hashQueue := rest },
      .ok (front, multisignature)) := by
  simp only [tryPopHash, hq, hl]

end BlockSignatureAggregator

open BlockSignatureAggregator

namespace Io

/-- One call, with the multisigned hash it hands out. -/
def step (agg : BlockSignatureAggregator H PMS) :
    Event H PMS → BlockSignatureAggregator H PMS × Option (H × PMS)
  | .startAggregation hash =>
    match agg.onStart hash with
    | .ok agg => (agg, none)
    | .error _ => (agg, none)
  | .multisignedHash hash signature => (agg.onMultisignedHash hash signature, none)
  | .tryPopHash =>
    match agg.tryPopHash with
    | (agg, .ok res) => (agg, some res)
    | (agg, .error _) => (agg, none)

def run (agg : BlockSignatureAggregator H PMS) (events : List (Event H PMS)) :
    BlockSignatureAggregator H PMS × List (H × PMS) :=
  events.foldl (fun acc event => ((step acc.1 event).1, acc.2 ++ (step acc.1 event).2.toList))
    (agg, [])

theorem run_concat (agg : BlockSignatureAggregator H PMS) (events : List (Event H PMS))
    (event : Event H PMS) :
    run agg (events ++ [event]) =
      ((step (run agg events).1 event).1,
        (run agg events).2 ++ (step (run agg events).1 event).2.toList) := by
  simp [run, List.foldl_append]

/-- A hash started before is ignored. -/
theorem step_startAggregation_of_mem {agg : BlockSignatureAggregator H PMS} {hash : H}
    (h : hash ∈ agg.startedHashes) : step agg (.startAggregation hash) = (agg, none) := by
  simp [step, onStart, h]

theorem step_startAggregation_of_not_mem {agg : BlockSignatureAggregator H PMS} {hash : H}
    (h : hash ∉ agg.startedHashes) :
    step agg (.startAggregation hash) =
      ({ agg with startedHashes := agg.startedHashes.insert hash,
                  hashQueue := agg.hashQueue ++ [hash] }, none) := by
  simp [step, onStart, h]

end Io

/-! ## What the calls so far say -/

/-- The hashes of the aggregations started, in the order of the calls. -/
def started (events : List (Event H PMS)) : List H :=
  events.filterMap fun
    | .startAggregation hash => some hash
    | _ => none

/-- The multisignature most recently delivered for `hash`. -/
def lastMultisignature (hash : H) (events : List (Event H PMS)) : Option PMS :=
  events.foldl (fun last event =>
    match event with
    | .multisignedHash h signature => if h = hash then some signature else last
    | _ => last) none

omit [DecidableEq H] in
@[simp] theorem started_concat_start (events : List (Event H PMS)) (hash : H) :
    started (events ++ [.startAggregation hash]) = started events ++ [hash] := by
  simp [started]

omit [DecidableEq H] in
@[simp] theorem started_concat_multisignedHash (events : List (Event H PMS)) (hash : H)
    (signature : PMS) : started (events ++ [.multisignedHash hash signature]) = started events := by
  simp [started]

omit [DecidableEq H] in
@[simp] theorem started_concat_tryPopHash (events : List (Event H PMS)) :
    started (events ++ [.tryPopHash]) = started events := by
  simp [started]

@[simp] theorem lastMultisignature_concat_start (hash' : H) (events : List (Event H PMS))
    (hash : H) :
    lastMultisignature hash' (events ++ [.startAggregation hash]) =
      lastMultisignature hash' events := by
  simp [lastMultisignature, List.foldl_append]

@[simp] theorem lastMultisignature_concat_multisignedHash (hash' : H) (events : List (Event H PMS))
    (hash : H) (signature : PMS) :
    lastMultisignature hash' (events ++ [.multisignedHash hash signature]) =
      if hash = hash' then some signature else lastMultisignature hash' events := by
  simp [lastMultisignature, List.foldl_append]

@[simp] theorem lastMultisignature_concat_tryPopHash (hash' : H) (events : List (Event H PMS)) :
    lastMultisignature hash' (events ++ [.tryPopHash]) = lastMultisignature hash' events := by
  simp [lastMultisignature, List.foldl_append]

/-- Appending a hash adds it to the first occurrences exactly when it is new. -/
theorem eraseDups_concat {α : Type} [DecidableEq α] (l : List α) (a : α) :
    (l ++ [a]).eraseDups = if a ∈ l then l.eraseDups else l.eraseDups ++ [a] := by
  rw [List.eraseDups_append]
  by_cases ha : a ∈ l
  · simp [List.removeAll, ha]
  · simp [List.removeAll, ha, List.eraseDups_cons]

/-! ## The aggregator follows the calls -/

/-- How the aggregator stands to the calls so far, with `popped` the hashes handed out: they
and the queue are the distinct started hashes in the order of their first start, the set of
started hashes is the started ones, and a hash not handed out has the multisignature last
delivered for it. -/
structure Tracks (events : List (Event H PMS)) (agg : BlockSignatureAggregator H PMS)
    (popped : List H) : Prop where
  queue : popped ++ agg.hashQueue = (started events).eraseDups
  nodup : (popped ++ agg.hashQueue).Nodup
  startedHashes : ∀ h, h ∈ agg.startedHashes ↔ h ∈ started events
  signatures : ∀ h, h ∉ popped → agg.signatures.lookup h = lastMultisignature h events

theorem tracks_new : Tracks ([] : List (Event H PMS)) new [] where
  queue := rfl
  nodup := List.nodup_nil
  startedHashes h := by simp [new, started]
  signatures h _ := rfl

/-- A pop succeeds exactly when the front hash has a multisignature, which is the one last
delivered for it. -/
theorem tryPopHash_ok_iff {events : List (Event H PMS)} {agg : BlockSignatureAggregator H PMS}
    {popped : List H} (ht : Tracks events agg popped) (h : H) (s : PMS) :
    agg.tryPopHash.2 = .ok (h, s) ↔
      (∃ rest, agg.hashQueue = h :: rest) ∧ lastMultisignature h events = some s := by
  cases hq : agg.hashQueue with
  | nil => simp [tryPopHash_of_nil hq]
  | cons front rest =>
    -- the front hash was never handed out, so the map holds what was last delivered for it
    have hfront : front ∉ popped := by
      have hnd := ht.nodup
      rw [hq, List.nodup_append] at hnd
      exact fun hp => hnd.2.2 front hp front List.mem_cons_self rfl
    have hsig := ht.signatures front hfront
    cases hl : agg.signatures.lookup front with
    | none =>
      rw [tryPopHash_of_none hq hl]
      simp only [reduceCtorEq, false_iff, not_and, List.cons.injEq]
      rintro ⟨_, rfl, -⟩
      rw [← hsig, hl]
      simp
    | some multisignature =>
      rw [tryPopHash_of_some hq hl]
      simp only [Except.ok.injEq, Prod.mk.injEq, List.cons.injEq]
      constructor
      · rintro ⟨rfl, rfl⟩
        exact ⟨⟨rest, rfl, rfl⟩, hsig ▸ hl⟩
      · rintro ⟨⟨_, rfl, -⟩, hs⟩
        exact ⟨rfl, Option.some.inj (hl.symm.trans (hsig.trans hs))⟩

theorem tracks_step {events : List (Event H PMS)} {agg : BlockSignatureAggregator H PMS}
    {popped : List H} (ht : Tracks events agg popped) (event : Event H PMS) :
    Tracks (events ++ [event]) (Io.step agg event).1
      (popped ++ (Io.step agg event).2.toList.map Prod.fst) := by
  obtain ⟨hqueue, hnodup, hstarted, hsigs⟩ := ht
  rcases event with hash | ⟨hash, signature⟩ | _
  · by_cases hs : hash ∈ agg.startedHashes
    · -- a hash started before changes nothing, and is among the first occurrences already
      rw [Io.step_startAggregation_of_mem hs]
      have hmem := (hstarted hash).mp hs
      refine ⟨?_, by simpa using hnodup, fun h => ?_, by simpa using hsigs⟩
      · simpa [eraseDups_concat, hmem] using hqueue
      · by_cases hh : h = hash
        · subst hh
          simp [hs, hmem]
        · simp [hstarted, hh]
    · have hmem : hash ∉ started events := fun hm => hs ((hstarted hash).mpr hm)
      rw [Io.step_startAggregation_of_not_mem hs]
      simp only [Option.toList_none, List.map_nil, List.append_nil]
      refine ⟨?_, ?_, fun h => ?_, by simpa using hsigs⟩
      · rw [started_concat_start, eraseDups_concat, if_neg hmem, ← hqueue, List.append_assoc]
      · rw [← List.append_assoc, List.nodup_append]
        refine ⟨hnodup, List.nodup_singleton hash, ?_⟩
        rintro a ha b hb rfl
        rw [List.mem_singleton.mp hb, hqueue, List.mem_eraseDups] at ha
        exact hmem ha
      · simp [hstarted, or_comm]
  · simp only [Io.step, onMultisignedHash, Option.toList_none, List.map_nil, List.append_nil]
    refine ⟨by simpa using hqueue, hnodup, by simpa using hstarted, fun h hp => ?_⟩
    by_cases hh : h = hash
    · subst hh
      simp [AList.lookup_insert]
    · simp [AList.lookup_insert_ne hh, Ne.symm hh, hsigs h hp]
  · -- a pop either leaves the aggregator as it was or hands out the front hash
    have hkeep : Tracks (events ++ [.tryPopHash]) agg popped :=
      ⟨by simpa using hqueue, hnodup, by simpa using hstarted, by simpa using hsigs⟩
    cases hq : agg.hashQueue with
    | nil => simpa [Io.step, tryPopHash_of_nil hq] using hkeep
    | cons front rest =>
      cases hl : agg.signatures.lookup front with
      | none => simpa [Io.step, tryPopHash_of_none hq hl] using hkeep
      | some multisignature =>
        simp only [Io.step, tryPopHash_of_some hq hl, Option.toList_some, List.map_cons,
          List.map_nil]
        have hlist : popped ++ [front] ++ rest = popped ++ agg.hashQueue := by
          rw [hq, List.append_assoc, List.singleton_append]
        refine ⟨?_, ?_, by simpa using hstarted, fun h hp => ?_⟩
        · rw [hlist, started_concat_tryPopHash]
          exact hqueue
        · rw [hlist]
          exact hnodup
        · simp only [List.mem_append, List.mem_singleton, not_or] at hp
          rw [AList.lookup_erase_ne hp.2, lastMultisignature_concat_tryPopHash]
          exact hsigs h hp.1

theorem tracks_run (events : List (Event H PMS)) :
    Tracks events (Io.run new events).1 ((Io.run new events).2.map Prod.fst) := by
  induction events using List.reverseRecOn with
  | nil => exact tracks_new
  | append_singleton events event ih =>
    rw [Io.run_concat, List.map_append]
    exact tracks_step ih event

/-- The aggregator hands out the multisigned hashes in the order of their first start. After
any interleaving of calls, the hashes handed out and those queued are the distinct started
hashes in that order, each once; a pop succeeds exactly when the front hash has a
multisignature, delivered before or after its start, and hands it out with the one last
delivered for it; and starting a hash started before, handed out or not, changes nothing. -/
theorem aggregator_hands_out_in_start_order (events : List (Event H PMS)) :
    let agg := (Io.run new events).1
    let out := (Io.run new events).2
    out.map Prod.fst <+: (started events).eraseDups ∧
      (out.map Prod.fst ++ agg.hashQueue).Nodup ∧
      agg.hashQueue = (started events).eraseDups.drop out.length ∧
      (∀ h s, agg.tryPopHash.2 = .ok (h, s) ↔
        (∃ rest, agg.hashQueue = h :: rest) ∧ lastMultisignature h events = some s) ∧
      ∀ h ∈ started events, Io.step agg (.startAggregation h) = (agg, none) := by
  obtain ⟨hqueue, hnodup, hstarted, -⟩ := tracks_run events
  refine ⟨?_, hnodup, ?_, tryPopHash_ok_iff (tracks_run events), fun h hh =>
    Io.step_startAggregation_of_mem ((hstarted h).mpr hh)⟩
  · rw [← hqueue]
    exact List.prefix_append _ _
  · rw [← hqueue, ← List.length_map Prod.fst, List.drop_left]

example : (Io.run new [.startAggregation 1, .startAggregation 2, .multisignedHash 2 "b",
    .tryPopHash, .multisignedHash 1 "a", .tryPopHash, .startAggregation 1, .tryPopHash]).2 =
      [(1, "a"), (2, "b")] := by decide

end Selendra.Aggregator
