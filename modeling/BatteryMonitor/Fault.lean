/-!
# What can go wrong

The causes for which an operation of this library stops, as data.  Reading a value of the wrong type is
not refused in advance: fields of readings and records may hold anything that a file can hold, and
an operation stops at the first value that it cannot work with (`Fault.wrongType` and its like).

Troubles of the file system are a type of their own (`Disk.Trouble`), since most readers of files
put up with them, and so are the troubles of telemetry sources, which carry their message.
-/

namespace BatteryMonitor

/-- Why the file system refuses. -/
inductive Disk.Trouble where
  | notFound
  | isDirectory
  | notDirectory
  | alreadyExists
  | nameTooLong
  | noSpace
  deriving DecidableEq, Repr

/-- Why a telemetry source has no reading. -/
inductive Telemetry.Trouble where
  /-- the battery snapshot file is missing or is no JSON text -/
  | unreadable (path : String)
  /-- the battery snapshot holds no list of batteries -/
  | notList (path : String)
  /-- the sensor could not be set up -/
  | setup (reason : String)
  /-- the sensor did not answer -/
  | reading (reason : String)
  /-- any other source -/
  | other (reason : String)
  deriving DecidableEq, Repr

/-- The message of a telemetry trouble. -/
def Telemetry.Trouble.message : Telemetry.Trouble → String
  | unreadable path => "Cannot read battery snapshot " ++ path
  | notList path => "Battery snapshot " ++ path ++ " is not a list"
  | setup reason => "INA219 init error: " ++ reason
  | reading reason => "INA219 read error: " ++ reason
  | other reason => reason

/-- Why an operation stopped. -/
inductive Fault where
  /-- a value of a type that the operation is not made for -/
  | wrongType
  /-- a value of the right type that means nothing here -/
  | badValue
  /-- a record was expected -/
  | notRecord
  /-- a number too large for its place -/
  | tooLarge
  | divisionByZero
  /-- a text that nests too deeply, or too many directories to be made one in the other -/
  | tooDeep
  /-- nothing is kept where something has to be: no state for a battery, no timer for a handle -/
  | missingEntry
  | disk (trouble : Disk.Trouble)
  | telemetry (trouble : Telemetry.Trouble)
  deriving DecidableEq, Repr

end BatteryMonitor
