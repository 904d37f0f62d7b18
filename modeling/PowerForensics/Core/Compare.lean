import PowerForensics.Core.Session
import PowerForensics.Core.Stats
import PowerForensics.Binary64.Order

/-! # Comparing two ranges

Two sides are compared metric by metric. What a side is compared by is taken from the
analysis of its range; the comparison itself only gates, subtracts and ranks.
-/

namespace PowerForensics.Compare

/-! ## The catalogue of metrics -/

structure HeadlineDef where
  key : String
  domain : String
  unit : String
  /-- The magnitude below which a difference is called unchanged. -/
  thresholdAbs : Binary64
  relativeSuitable : Bool

def headline : List HeadlineDef :=
  [⟨"battery_discharge_w", "power", "W", 0.5, true⟩,
    ⟨"battery_pct", "battery", "%", 1.0, false⟩,
    ⟨"cpu_utility_pct", "cpu", "%", 5.0, false⟩,
    ⟨"cpu_pkg_power_w", "cpu", "W", 0.5, true⟩,
    ⟨"cpu_pkg_derived_w", "cpu", "W", 0.5, true⟩,
    ⟨"cpu_c3_pct", "cpu", "%", 10.0, false⟩,
    ⟨"gpu_util_pct", "gpu", "%", 5.0, false⟩,
    ⟨"display_brightness_pct", "display", "%", 5.0, false⟩,
    ⟨"net_rx_bps", "network", "B/s", 64.0 * 1024.0, true⟩,
    ⟨"net_tx_bps", "network", "B/s", 64.0 * 1024.0, true⟩,
    ⟨"storage_disk_time_pct", "storage", "%", 5.0, false⟩,
    ⟨"storage_read_bps", "storage", "B/s", 256.0 * 1024.0, true⟩,
    ⟨"storage_write_bps", "storage", "B/s", 256.0 * 1024.0, true⟩]

/-- The metrics that experiments look at, too. -/
def curatedMetricKeys : List String := headline.map HeadlineDef.key

/-- What a range was recorded under. -/
structure RangeContext where
  powerScheme : Option String
  powerSource : Option String
  refreshHz : Option String
  displayCount : Option Nat
  gpuAdapters : List String
  effectiveCadenceMs : Option Binary64
  deriving DecidableEq, Inhabited

end PowerForensics.Compare
