import JetStream.Lib.Float64

namespace JetStream

/-- Every network monitor keeps its own ratio and the last report from downstream. -/
structure NetCongestionMonitor where
  downstreamStatus : Float64 := .infinity false
  maxPerSec : Float64 := .infinity false
  downstreamReportTime : UInt64 := 0
  ratio : Float64 := .ofInt 10

namespace NetCongestionMonitor

def setDownstreamCongestion (monitor : NetCongestionMonitor) (status : Float64) (reportTime : UInt64) :
    NetCongestionMonitor := {monitor with downstreamStatus := status, downstreamReportTime := reportTime}

/-- A monitor gives the smaller of its own ratio and the one from downstream. -/
def finalRatio (monitor : NetCongestionMonitor) : Float64 := monitor.ratio.fmin monitor.downstreamStatus

/-- The time belongs to the report from downstream exactly when that report is the smaller ratio. -/
def reportTime (monitor : NetCongestionMonitor) (own : UInt64) : UInt64 :=
  if monitor.downstreamStatus < monitor.ratio then monitor.downstreamReportTime else own

end NetCongestionMonitor

/-- A queue monitor samples its queue at most every hundred milliseconds. -/
structure QueueCongestionMonitor extends NetCongestionMonitor where
  queueTarget : UInt32
  queueLen : UInt32 := 0
  prevQueueLen : UInt32 := 0
  insertsInPeriod : UInt32 := 0
  lastQueryTS : UInt64 := 0
  prevInserts : UInt32 := 0
  removes : Int32 := 0

namespace QueueCongestionMonitor

def sampleIntervalMs : ℕ := 100

/-- A new sample is due when more than the interval has passed on the microsecond clock. -/
def due (monitor : QueueCongestionMonitor) (now : UInt64) : Bool :=
  monitor.lastQueryTS + .ofNat (sampleIntervalMs * 1000) < now

/-- The queue has no room left even without inserts, or the room is shared among the inserts. -/
def sampledRatio (monitor : QueueCongestionMonitor) (readQLen inserts : UInt32) : Float64 :=
  let queueDelta := (readQLen - monitor.prevQueueLen).toInt32
  let availRoom := (monitor.queueTarget - readQLen - queueDelta.toUInt32).toInt32
  let ratio : Float64 :=
    if inserts.toInt32 < -availRoom then .ofInt 0 else .ofInt availRoom.toInt / .ofInt inserts.toNat + .ofInt 1
  let ratePerSec : Float64 := .ofInt inserts.toNat * .ofInt 1000 / .ofInt sampleIntervalMs
  ratio.fmin (monitor.maxPerSec / ratePerSec)

/-- A sample ends with the new ratio, and a negative ratio is fatal. -/
def finishSample (monitor : QueueCongestionMonitor) (readQLen inserts : UInt32) : Option QueueCongestionMonitor :=
  let ratio := monitor.sampledRatio readQLen inserts
  let removes := (inserts - (readQLen - monitor.prevQueueLen)).toInt32
  if ratio < .ofInt 0 then none
  else some {monitor with
    ratio := ratio
    prevInserts := inserts
    removes := if removes < 0 then 0 else removes
    prevQueueLen := readQLen}

/-- The whole call samples with the values that its atomic reads give, when a sample is due. -/
def capacityRatio (monitor : QueueCongestionMonitor) (now : UInt64) (readQLen inserts : UInt32) :
    Option (Float64 × QueueCongestionMonitor) :=
  if monitor.due now then
    (finishSample {monitor with lastQueryTS := now} readQLen inserts).map fun sampled => (sampled.finalRatio, sampled)
  else some (monitor.finalRatio, monitor)

/-- The time of the last sample is given in microseconds. -/
def measurementTime (monitor : QueueCongestionMonitor) : UInt64 := monitor.reportTime monitor.lastQueryTS

end QueueCongestionMonitor

/-- A smoothing monitor keeps the counts and the times of its last three samples. -/
structure SmoothingQCongestionMonitor extends NetCongestionMonitor where
  queueTarget : UInt32
  smoothStepMs : UInt64
  queueLen : UInt32 := 0
  inserts : Fin 3 → Int32 := fun _ => 0
  removes : Fin 3 → Int32 := fun _ => 0
  tstamps : Fin 3 → UInt64 := fun _ => 0
  vIdx : Fin 3 := 0

namespace SmoothingQCongestionMonitor

/-- A new monitor has seen no sample. -/
def new (queueTarget : UInt32) (smoothStepMs : UInt64) : SmoothingQCongestionMonitor :=
  {queueTarget := queueTarget, smoothStepMs := smoothStepMs}

def projectSteps : Float64 := .ofInt 8
def windSize : ℕ := 3

/-- The counts are added up in an `int`. -/
def total (counts : Fin 3 → Int32) : ℤ := (counts 0 + counts 1 + counts 2).toInt

/-- The ratio follows from the queue length that the last three samples project. -/
def projectedRatio (monitor : SmoothingQCongestionMonitor) : Float64 :=
  let totalInserts := total monitor.inserts
  let growth := totalInserts - total monitor.removes
  let futureQueueSize :=
    (Float64.ofInt monitor.queueLen.toNat + .ofInt growth * projectSteps / .ofInt windSize).truncate
  let deltaToAchieve := Float64.ofInt (monitor.queueTarget.toNat - futureQueueSize)
  let ratio : Float64 :=
    if totalInserts = 0 then .infinity false
    else .ofInt 1 + deltaToAchieve / .ofInt totalInserts * (.ofInt windSize / projectSteps)
  let ratio : Float64 := if ratio < .ofInt 0 then .ofInt 0 else ratio
  let tdeltaFullWindow := monitor.tstamps monitor.vIdx - monitor.tstamps (monitor.vIdx + 1)
  let ratePerSec : Float64 := .ofInt totalInserts * .ofInt 1000 / .ofInt tdeltaFullWindow.toNat
  ratio.fmin (monitor.maxPerSec / ratePerSec)

/-- A sample takes the place of the oldest one. -/
def addSample (monitor : SmoothingQCongestionMonitor) (now : UInt64) (myInserts myRemoves : UInt32) :
    SmoothingQCongestionMonitor :=
  let vIdx := monitor.vIdx + 1
  {monitor with
    queueLen := monitor.queueLen + myInserts - myRemoves
    vIdx := vIdx
    inserts := Function.update monitor.inserts vIdx myInserts.toInt32
    removes := Function.update monitor.removes vIdx myRemoves.toInt32
    tstamps := Function.update monitor.tstamps vIdx now}

def capacityRatio (monitor : SmoothingQCongestionMonitor) (now : UInt64) (myInserts myRemoves : UInt32) :
    Float64 × SmoothingQCongestionMonitor :=
  if monitor.smoothStepMs ≤ now - monitor.tstamps monitor.vIdx then
    let monitor := monitor.addSample now myInserts myRemoves
    let monitor := {monitor with ratio := monitor.projectedRatio}
    (monitor.finalRatio, monitor)
  else (monitor.finalRatio, monitor)

/-- The time is the one of the oldest sample, in milliseconds. -/
def measurementTime (monitor : SmoothingQCongestionMonitor) : UInt64 :=
  monitor.reportTime (monitor.tstamps (monitor.vIdx + 1))

end SmoothingQCongestionMonitor

/-- A window monitor compares the nominal length of a window with the time its data took. -/
structure WindowCongestionMonitor extends NetCongestionMonitor where
  lastWindowEnd : UInt64
  smoothingFactor : Float64 := .ofInt 0
  windowStartTime : UInt64 := 0
  bytesInWindow : UInt32 := 0

namespace WindowCongestionMonitor

/-- Without data the window is unconstrained, and the ramp-up is limited to ten. -/
def unsmoothedRatio (monitor : WindowCongestionMonitor) (now : UInt64) (windowDataMs : Int32)
    (processingStartTime : UInt64) : Float64 :=
  if processingStartTime = 0 then .ofInt 10
  else
    let processtime := now - processingStartTime
    let availtime := now - monitor.lastWindowEnd
    let windowRatio := Float64.ofInt windowDataMs.toInt / .ofInt processtime.toNat
    let bytesPerSec := Float64.ofInt monitor.bytesInWindow.toNat * .ofInt 1000 / .ofInt availtime.toNat
    let unsmoothed := windowRatio.stdMin (monitor.maxPerSec / bytesPerSec)
    if processtime = 0 ∨ availtime = 0 ∨ .ofInt 10 < unsmoothed then .ofInt 10 else unsmoothed

def endOfWindow (monitor : WindowCongestionMonitor) (now : UInt64) (windowDataMs : Int32)
    (processingStartTime : UInt64) : WindowCongestionMonitor :=
  {monitor with
    ratio := (.ofInt 1 - monitor.smoothingFactor) * monitor.unsmoothedRatio now windowDataMs processingStartTime +
      monitor.smoothingFactor * monitor.ratio
    bytesInWindow := 0
    lastWindowEnd := now
    windowStartTime := 0}

@[simp] theorem endOfWindow_downstreamStatus (monitor : WindowCongestionMonitor) (now : UInt64) (windowDataMs : Int32)
    (processingStartTime : UInt64) :
    (monitor.endOfWindow now windowDataMs processingStartTime).downstreamStatus = monitor.downstreamStatus := rfl

/-- The first insert of a window sets its start. -/
def reportInsert (monitor : WindowCongestionMonitor) (now : UInt64) (weight : UInt32) : WindowCongestionMonitor :=
  {monitor with
    windowStartTime := if monitor.windowStartTime = 0 then now else monitor.windowStartTime
    bytesInWindow := monitor.bytesInWindow + weight}

def capacityRatio (monitor : WindowCongestionMonitor) : Float64 := monitor.downstreamStatus.fmin monitor.ratio

/-- The time is the one of the last end of a window, in milliseconds. -/
def measurementTime (monitor : WindowCongestionMonitor) : UInt64 := monitor.reportTime monitor.lastWindowEnd

end WindowCongestionMonitor

end JetStream
