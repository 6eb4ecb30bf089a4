import Mathlib.Data.Nat.Bitwise
import Rocprofsys.Base.Emission
import Rocprofsys.Base.NearestDouble
import Rocprofsys.Gpu.GpuMetrics
import Rocprofsys.TraceCache.SampleType

namespace Rocprofsys
namespace Gpu
namespace AmdSmi

open Base TraceCache

/-! ## Readings -/

/-- `settings`: the metrics that are enabled for a device. -/
structure Settings where
  busy : Bool := true
  temp : Bool := true
  power : Bool := true
  memUsage : Bool := true
  vcnActivity : Bool := true
  jpegActivity : Bool := true
  xgmi : Bool := true
  pcie : Bool := true
  deriving DecidableEq, Repr

structure Device where
  id : UInt32
  vcnIsDeviceLevelOnly : Bool
  jpegIsDeviceLevelOnly : Bool

/-- An XCP in `amdsmi_gpu_metrics_t`.  The library's arrays have fixed sizes, each of
which fits a byte. -/
structure XcpStats where
  vcnBusy : List UInt16
  jpegBusy : List UInt16
  vcnBusy_lt : vcnBusy.length < 256
  jpegBusy_lt : jpegBusy.length < 256

/-- The fields of `amdsmi_gpu_metrics_t` that are sampled. -/
structure AmdsmiGpuMetrics where
  vcnActivity : List UInt16
  jpegActivity : List UInt16
  xcpStats : List XcpStats
  xgmiLinkWidth : UInt16
  xgmiLinkSpeed : UInt16
  xgmiReadDataAcc : List UInt64
  xgmiWriteDataAcc : List UInt64
  pcieLinkWidth : UInt16
  pcieLinkSpeed : UInt16
  pcieBandwidthAcc : UInt64
  pcieBandwidthInst : UInt64
  vcnActivity_lt : vcnActivity.length < 256
  jpegActivity_lt : jpegActivity.length < 256
  xcpStats_lt : xcpStats.length < 256

/-- What the clock and the library report in one call of `sample`. -/
structure Reading where
  timestamp : UInt64
  gfxActivity : UInt32
  umcActivity : UInt32
  mmActivity : UInt32
  temp : Int64
  currentSocketPower : UInt32
  memUsage : UInt64
  gpuMetrics : AmdsmiGpuMetrics

theorem nil_lt : ([] : List UInt16).length < 256 := Nat.zero_lt_succ 255

/-- A reading in which only XCPs report anything. -/
def Reading.ofXcps (timestamp : UInt64) (xcpStats : List XcpStats)
    (xcpStats_lt : xcpStats.length < 256) : Reading where
  timestamp := timestamp
  gfxActivity := 0
  umcActivity := 0
  mmActivity := 0
  temp := 0
  currentSocketPower := 0
  memUsage := 0
  gpuMetrics :=
    { vcnActivity := [], jpegActivity := [], xcpStats := xcpStats
      xgmiLinkWidth := 0, xgmiLinkSpeed := 0, xgmiReadDataAcc := [], xgmiWriteDataAcc := []
      pcieLinkWidth := 0, pcieLinkSpeed := 0, pcieBandwidthAcc := 0, pcieBandwidthInst := 0
      vcnActivity_lt := nil_lt, jpegActivity_lt := nil_lt, xcpStats_lt := xcpStats_lt }

/-! ## Sampling -/

/-- `data`: what one call of `sample` keeps. -/
structure Data where
  devId : UInt32
  ts : UInt64
  gfxActivity : UInt32 := 0
  umcActivity : UInt32 := 0
  mmActivity : UInt32 := 0
  temp : Int64 := 0
  currentSocketPower : UInt32 := 0
  memUsage : UInt64 := 0
  gpuMetrics : List GpuMetrics := []

namespace Settings

def gpuMetricsNeeded (settings : Settings) : Bool :=
  settings.vcnActivity || settings.jpegActivity || settings.xgmi || settings.pcie

def basicMetricsEnabled (settings : Settings) : Bool :=
  settings.busy || settings.temp || settings.power || settings.memUsage

/-- The bit at each of `settings_positions`. -/
def bits (settings : Settings) : Fin 8 → Bool
  | 0 => settings.busy
  | 1 => settings.temp
  | 2 => settings.power
  | 3 => settings.memUsage
  | 4 => settings.vcnActivity
  | 5 => settings.jpegActivity
  | 6 => settings.xgmi
  | 7 => settings.pcie

/-- `serialize_settings`. -/
def serialize (settings : Settings) : UInt64 := UInt64.ofNat (Nat.ofBits settings.bits)

/-- The bits as the processor tests them. -/
def ofBits (bits : UInt64) : Settings where
  busy := bits.toNat.testBit 0
  temp := bits.toNat.testBit 1
  power := bits.toNat.testBit 2
  memUsage := bits.toNat.testBit 3
  vcnActivity := bits.toNat.testBit 4
  jpegActivity := bits.toNat.testBit 5
  xgmi := bits.toNat.testBit 6
  pcie := bits.toNat.testBit 7

def toGpuMetricsSettings (settings : Settings) : GpuMetricsSettings where
  vcnActivity := settings.vcnActivity
  jpegActivity := settings.jpegActivity
  xgmi := settings.xgmi
  pcie := settings.pcie

end Settings

/-- `filter_max_uint_value`: the largest value says that the field is not supported. -/
def filterMaxUIntValue {α : Type} [DecidableEq α] [OfNat α 0] (value maxVal : α) : α :=
  if value = maxVal then 0 else value

/-- `fill_gpu_metrics` into an empty vector. -/
def fillGpuMetrics {α : Type} [DecidableEq α] (src : List α) (maxVal : α) : List α :=
  src.filter (· != maxVal)

def uint16Max : UInt16 := 65535

def uint64Max : UInt64 := 18446744073709551615

/-- The busy values of the XCPs; an XCP without one is left out. -/
def fillXcps (xcps : List (List UInt16)) : List (List UInt16) :=
  (xcps.map (fillGpuMetrics · uint16Max)).filter (!·.isEmpty)

/-- The capability flags of the device. -/
def capabilitiesOf (device : Device) : GpuMetricsCapabilities :=
  ⟨UInt8.ofNat (device.vcnIsDeviceLevelOnly.toNat + 2 * device.jpegIsDeviceLevelOnly.toNat)⟩

/-- The metrics that `sample` fills in from those of the library. -/
def filledMetrics (settings : Settings) (device : Device) (raw : AmdsmiGpuMetrics) : GpuMetrics where
  vcnActivity := if settings.vcnActivity && device.vcnIsDeviceLevelOnly then
    fillGpuMetrics raw.vcnActivity uint16Max else []
  vcnBusy := if settings.vcnActivity && !device.vcnIsDeviceLevelOnly then
    fillXcps (raw.xcpStats.map XcpStats.vcnBusy) else []
  jpegActivity := if settings.jpegActivity && device.jpegIsDeviceLevelOnly then
    fillGpuMetrics raw.jpegActivity uint16Max else []
  jpegBusy := if settings.jpegActivity && !device.jpegIsDeviceLevelOnly then
    fillXcps (raw.xcpStats.map XcpStats.jpegBusy) else []
  xgmiLinkWidth := if settings.xgmi then filterMaxUIntValue raw.xgmiLinkWidth uint16Max else 0
  xgmiLinkSpeed := if settings.xgmi then filterMaxUIntValue raw.xgmiLinkSpeed uint16Max else 0
  xgmiReadDataAcc := if settings.xgmi then fillGpuMetrics raw.xgmiReadDataAcc uint64Max else []
  xgmiWriteDataAcc := if settings.xgmi then fillGpuMetrics raw.xgmiWriteDataAcc uint64Max else []
  pcieLinkWidth := if settings.pcie then filterMaxUIntValue raw.pcieLinkWidth uint16Max else 0
  pcieLinkSpeed := if settings.pcie then filterMaxUIntValue raw.pcieLinkSpeed uint16Max else 0
  pcieBandwidthAcc := if settings.pcie then
    filterMaxUIntValue raw.pcieBandwidthAcc uint64Max else 0
  pcieBandwidthInst := if settings.pcie then
    filterMaxUIntValue raw.pcieBandwidthInst uint64Max else 0

/-- `has_data`. What is not enabled is empty or zero and adds nothing. -/
def hasData (metrics : GpuMetrics) : Bool :=
  !metrics.vcnActivity.isEmpty || !metrics.vcnBusy.isEmpty ||
  !metrics.jpegActivity.isEmpty || !metrics.jpegBusy.isEmpty ||
  metrics.xgmiLinkWidth != 0 || metrics.xgmiLinkSpeed != 0 ||
  !metrics.xgmiReadDataAcc.isEmpty || !metrics.xgmiWriteDataAcc.isEmpty ||
  metrics.pcieLinkWidth != 0 || metrics.pcieLinkSpeed != 0 ||
  metrics.pcieBandwidthAcc != 0 || metrics.pcieBandwidthInst != 0

/-- What stays as it is while a device is sampled and its samples are processed: the
number of bytes in a megabyte, the device with its settings, and the lifetime of the
main thread. -/
structure Session where
  megabyte : UInt64
  device : Device
  settings : Settings
  lifetime : Option (UInt64 × UInt64)

namespace Session

variable (session : Session)

def metrics (reading : Reading) : GpuMetrics :=
  if session.settings.gpuMetricsNeeded then
    filledMetrics session.settings session.device reading.gpuMetrics
  else {}

/-- A sample goes to the cache with a basic metric enabled or with data of the others. -/
def isStored (reading : Reading) : Bool :=
  session.settings.basicMetricsEnabled || hasData (session.metrics reading)

/-- `data::sample`, the data for `post_process`. -/
def sample (reading : Reading) : Data where
  devId := session.device.id
  ts := reading.timestamp
  gfxActivity := if session.settings.busy then reading.gfxActivity else 0
  umcActivity := if session.settings.busy then reading.umcActivity else 0
  mmActivity := if session.settings.busy then reading.mmActivity else 0
  temp := if session.settings.temp then reading.temp else 0
  currentSocketPower := if session.settings.power then reading.currentSocketPower else 0
  memUsage := if session.settings.memUsage then reading.memUsage else 0
  gpuMetrics := if hasData (session.metrics reading) then [session.metrics reading] else []

/-- `data::sample`, the sample in the trace cache. -/
def storedSample (reading : Reading) : AmdSmiSample :=
  let data := session.sample reading
  let capabilities :=
    if session.settings.gpuMetricsNeeded then capabilitiesOf session.device else {}
  { settings := session.settings.serialize
    deviceId := session.device.id
    timestamp := reading.timestamp
    gfxActivity := data.gfxActivity
    umcActivity := data.umcActivity
    mmActivity := data.mmActivity
    power := data.currentSocketPower
    temperature := data.temp
    memUsage := data.memUsage / session.megabyte
    gpuActivity := ⟨serializeGpuMetrics (session.metrics reading) capabilities
      session.settings.toGpuMetricsSettings⟩ }

end Session

end AmdSmi
end Gpu
end Rocprofsys
