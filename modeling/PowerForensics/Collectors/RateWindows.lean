import PowerForensics.Collectors.Graphics
import PowerForensics.Collectors.Network
import PowerForensics.Collectors.Storage

/-! # Windows of the rate collectors

A sample's rates are computed over two collections with a sleep or the boundary of a read in
between, unless the read has just built the counters anew: the new query ends with its warm-up,
and the read goes on to collect it once more.
-/

namespace PowerForensics.Collectors

open Responses

/-! ## Reads as reads of the counters -/

theorem GpuCollector.read_clocked (s : GpuCollector) (calls : GpuCalls) :
    (s.read calls).2.clocked =
      (readCounters gpuCounters s.clocked calls.toSurroundings).2 := rfl

theorem GpuCollector.read_rates (s : GpuCollector) (calls : GpuCalls) :
    (s.read calls).1.map GpuReading.rates =
      (readCounters gpuCounters s.clocked calls.toSurroundings).1.rates := by
  unfold GpuCollector.read
  dsimp only
  cases (readCounters gpuCounters s.clocked calls.toSurroundings).1.rates <;> rfl

theorem StorageCollector.read_rates (s : StorageCollector) (calls : Surroundings) :
    (s.read calls).1.map id = (readCounters storageCounters s.clocked calls).1.rates := by
  unfold StorageCollector.read
  dsimp only
  cases (readCounters storageCounters s.clocked calls).1.rates <;> rfl

theorem NetCollector.read_clocked (s : NetCollector) (calls : NetCalls) :
    (s.read calls).2.clocked =
      (readCounters networkCounters s.clocked calls.toSurroundings).2 := by
  unfold NetCollector.read
  dsimp only
  cases (readCounters networkCounters s.clocked calls.toSurroundings).1.rates <;>
    exact NetCollector.clocked_applyRebuild _ _

theorem NetCollector.read_rates (s : NetCollector) (calls : NetCalls) :
    (s.read calls).1.map NetReading.rates =
      (readCounters networkCounters s.clocked calls.toSurroundings).1.rates := by
  unfold NetCollector.read
  dsimp only
  cases (readCounters networkCounters s.clocked calls.toSurroundings).1.rates <;> rfl

/-! ## Histories -/

/-- All samples of the three collectors, over any histories of their reads, span a window if and
only if no read builds counters anew that were there before, and goes on to collect them. -/
theorem forall_samples_span (gpu : List GpuCalls) (net : List NetCalls)
    (storage : List Surroundings) :
    ((∀ o ∈ responses GpuCollector.read .new gpu, SampleSpans GpuReading.rates o) ↔
      ∀ before calls after, gpu = before ++ calls :: after →
        ¬ Overbuilds gpuCounters (stateAfter GpuCollector.read .new before).clocked
          calls.toSurroundings) ∧
    ((∀ o ∈ responses NetCollector.read .new net, SampleSpans NetReading.rates o) ↔
      ∀ before calls after, net = before ++ calls :: after →
        ¬ Overbuilds networkCounters (stateAfter NetCollector.read .new before).clocked
          calls.toSurroundings) ∧
    ((∀ o ∈ responses StorageCollector.read .new storage, SampleSpans id o) ↔
      ∀ before calls after, storage = before ++ calls :: after →
        ¬ Overbuilds storageCounters (stateAfter StorageCollector.read .new before).clocked
          calls) := by
  refine ⟨?_, ?_, ?_⟩
  · exact forall_spans GpuCollector.read_clocked GpuCollector.read_rates
      (settled_new gpuCounters) gpu
  · exact forall_spans NetCollector.read_clocked NetCollector.read_rates
      (settled_new networkCounters) net
  · exact forall_spans (fun _ _ => rfl) StorageCollector.read_rates
      (settled_new storageCounters) storage

/-! ## The first rebuild -/

/-- Surroundings in which every call succeeds. -/
def oneEngine : Build where
  opened := .ok ()
  enumInstances _ := .ok ["pid_1_luid_0x0_0x1_phys_0_eng_0_engtype_3d"]
  add _ := 1
  first := .ok ()
  second := .ok ()

def goodCalls : GpuCalls where
  init := oneEngine
  rebuild := oneEngine
  collect := .ok ()
  enumerateAdapters := .ok []

/-- The collections that a read reports. -/
def windowOf (o : Except String GpuReading) : Option (Moment × Moment) :=
  match o with
  | .ok sample => sample.rates.window
  | .error _ => none

theorem windowOf_fortieth :
    (responses GpuCollector.read .new (List.replicate 40 goodCalls))[39]?.bind windowOf =
      some (⟨40, 2⟩, ⟨40, 2⟩) := by
  decide +kernel

/-- The fortieth read of a graphics collector that nothing ever fails for returns rates over two
collections with nothing in between. -/
theorem fortieth_read_not_spans :
    ¬ ∀ o ∈ responses GpuCollector.read .new (List.replicate 40 goodCalls),
      SampleSpans GpuReading.rates o := by
  intro hall
  obtain ⟨o, hget, hwindow⟩ := Option.bind_eq_some_iff.1 windowOf_fortieth
  have hspans := hall o (List.mem_of_getElem? hget)
  cases o with
  | error e => cases hwindow
  | ok sample =>
      have hapart : Moment.Apart ⟨40, 2⟩ ⟨40, 2⟩ := hspans sample rfl _ hwindow
      exact absurd hapart (by decide)

end PowerForensics.Collectors
