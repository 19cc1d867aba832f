import BatteryMonitor.Reading
import BatteryMonitor.Snapshot
import BatteryMonitor.Value.Arithmetic

/-!
# Battery health

A battery with a permanent failure is poor.  Otherwise its full capacity, a reserve added, is set
against the capacity it was designed for: at no more than 80% after less than 300 cycles it is fair and
needs replacement, else it is good.  A battery that needs replacement stays fair until its ratio
exceeds 83%, so that noise around 80% does not make the verdict flap; that it does is the latch which
`Reading.classify` takes and gives back.
-/

namespace BatteryMonitor

/-- The failure that makes a battery poor. -/
def permanentFailure : String := "Permanent Battery Failure"

/-- The reserve that the full capacity does not show, in mAh. -/
def reserve : Binary64 := 200

/-- The ratio up to which a battery needs replacement. -/
def tripRatio : Binary64 := 0.80

/-- The ratio up to which a battery that needs replacement still does. -/
def releaseRatio : Binary64 := 0.83

/-- A battery of that many cycles may be worn. -/
def youngCycles : Int := 300

/-- A verdict: the health and how sure it is, both unknown when indeterminate. -/
structure Health where
  rating : Option Rating
  confidence : Option Rating
  deriving DecidableEq

/-- A verdict that is certain. -/
def Health.certain (rating : Rating) : Health := ⟨some rating, some .good⟩

/-- No verdict. -/
def Health.unknown : Health := ⟨none, none⟩

namespace Reading

/-- The battery has failed for good. -/
def hasPermanentFailure (r : Reading) : Bool :=
  !r.errorCondition.isNull && r.failure.isText permanentFailure

/-- The full capacity with the reserve, as a part of the designed one. -/
def capacityRatio (r : Reading) : Except Fault Binary64 := do
  let capacity ← (← r.maxCapacity.number).add (.double reserve)
  capacity.div (← r.designCapacity.number)

/-- The verdict on a battery whose latch is given, and the latch after it. -/
def classify (r : Reading) (latched : Bool) : Except Fault (Health × Bool) :=
  if !r.isPresent.truth then .ok (.unknown, latched)
  else if r.hasPermanentFailure then .ok (.certain .poor, latched)
  else if !r.designCapacity.truth then .ok (.unknown, latched)
  else do
    let ratio ← r.capacityRatio
    let young ← r.cycleCount.less (.int youngCycles)
    let limit := if latched then releaseRatio else tripRatio
    if ratio.value.le limit.value && young then return (.certain .fair, true)
    else return (.certain .good, false)

end Reading

end BatteryMonitor
