import BatteryMonitor.Reading
import BatteryMonitor.Telemetry.Curve

/-!
# A battery behind a shunt monitor

The monitor sits on the battery side of an uninterruptible supply and measures voltage and current.
Current above a small threshold is taken to mean both external power and charging; the capacity comes
from the voltage by the discharge curve.  There is no designed capacity, no cycle counter and no
estimate of the battery itself.

The average current is the mean of the last samples, at most `Shunt.window` of them.  A sample joins the
window as soon as both measurements succeeded, even if nothing can be made of it.
-/

namespace BatteryMonitor

/-- What a sensor answers now: a measurement, or why there is none. -/
structure Sensor where
  voltage : Except String Value := .ok .null
  current : Except String Value := .ok .null
  /-- why the sensor cannot be reached, if it cannot -/
  initError : Option String := none
  /-- why the sensor cannot be configured, if it cannot -/
  configureError : Option String := none

/-- A step of setting a sensor up. -/
inductive SensorCall where
  | create (shunt address bus : Value)
  | configure

/-- A source of readings from a sensor. -/
structure Shunt where
  /-- the capacity of the full pack in mAh -/
  capacity : Value := .int 3400
  name : Value := .text "INA219 UPS"
  /-- the currents that the average is made of, the latest last -/
  recent : List Value := []

namespace Shunt

/-- How many samples the average is made of. -/
def window : Nat := 12

/-- The current from which on the battery is charging, in mA. -/
def chargeThreshold : Int := 10

/-- How long the voltage takes to settle after a change of the supply, in seconds. -/
def settledTime : Int := 30

/-- The sum of values. -/
def sum : List Value → Except Fault Number :=
  List.foldlM (fun total v => do total.add (← v.number)) (.int 0)

/-- The mean of the samples in the window. -/
def average (samples : List Value) : Except Fault Binary64 := do
  (← sum samples).div (.int samples.length)

/-- The samples with one more; the oldest leaves a full window. -/
def push (samples : List Value) (current : Value) : List Value :=
  let all := samples ++ [current]
  all.drop (all.length - window)

/-- The reading that samples and a voltage make. -/
def reading (s : Shunt) (voltage current : Value) : Except Fault Reading := do
  let average ← average s.recent
  let charging ← (Value.int chargeThreshold).less current
  let percent ← Curve.percent (← voltage.number)
  let product ← (← s.capacity.number).mul (.double percent)
  let capacity ← (← product.div (.double 100)).round
  let average ← average.round
  let instant ← current.round
  return {
    isPresent := .bool true
    externalConnected := .bool charging
    isCharging := .bool charging
    currentCapacity := .int capacity
    maxCapacity := s.capacity
    avgAmperage := .int average
    instantAmperage := .int instant
    hasInstantAmperage := .bool true
    name := s.name
    invalidWakeSecs := .int settledTime }

/-- Measures once. -/
def read (s : Shunt) (sensor : Sensor) : Except Fault (List Reading) × Shunt :=
  match sensor.voltage with
  | .error reason => (.error (.telemetry (.reading reason)), s)
  | .ok voltage =>
    match sensor.current with
    | .error reason => (.error (.telemetry (.reading reason)), s)
    | .ok current =>
      let s := { s with recent := push s.recent current }
      (return [← s.reading voltage current], s)

/-! ### Setting a sensor up -/

/-- The parameters of a sensor on its bus. -/
structure Wiring where
  /-- the resistance of the shunt in ohms -/
  shunt : Value := .float 0.1
  address : Value := .int 0x41
  bus : Value := .int 1

/-- The parameters by their names, in the order of their places. -/
def parameters : List String := ["shunt_ohms", "address", "busnum"]

/-- Names that stand for the source itself and cannot be given. -/
def reserved : List String := ["cls"]

/-- The parameters given by place and by name; none may be given twice. -/
def wiringOf (placed : List Value) (named : Table Value) : Except Fault Wiring :=
  if parameters.length < placed.length then .error .wrongType
  else if (parameters.take placed.length ++ reserved).any fun name => named.contains (.text name) then
    .error .wrongType
  else
    let parameter (place : Nat) (name : String) (default : Value) : Value :=
      match placed[place]? with
      | some v => v
      | none => named.getD name default
    .ok {
      shunt := parameter 0 "shunt_ohms" (.float 0.1)
      address := parameter 1 "address" (.int 0x41)
      bus := parameter 2 "busnum" (.int 1) }

/-- The source with the given capacity and name; there are no other options. -/
def withOptions (named : Table Value) : Except Fault Shunt :=
  let options := named.filter fun (k, _) => !parameters.any fun name => k.same (.text name)
  if options.all fun (k, _) => k.same (.text "capacity_mah") || k.same (.text "name") then
    .ok {
      capacity := named.getD "capacity_mah" (.int 3400)
      name := named.getD "name" (.text "INA219 UPS") }
  else .error .wrongType

/-- Sets a sensor up; also tells the steps that were taken. -/
def setUp (sensor : Sensor) (w : Wiring) : Except Fault Unit × List SensorCall :=
  let create := SensorCall.create w.shunt w.address w.bus
  match sensor.initError, sensor.configureError with
  | some reason, _ => (.error (.telemetry (.setup reason)), [create])
  | none, some reason => (.error (.telemetry (.setup reason)), [create, .configure])
  | none, none => (.ok (), [create, .configure])

/-- A source on a sensor that is set up first. -/
def openSensor (sensor : Sensor) (placed : List Value) (named : Table Value) :
    Except Fault Shunt × List SensorCall :=
  match wiringOf placed named with
  | .error fault => (.error fault, [])
  | .ok w =>
    let (result, calls) := setUp sensor w
    (result >>= fun _ => withOptions named, calls)

end Shunt

end BatteryMonitor
