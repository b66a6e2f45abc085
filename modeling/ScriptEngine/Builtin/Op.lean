/-!
# Built-in operations

The operations that a program reaches through built-in functions. Which name stands for
which operation is up to the registry; an operation only says what is done.
-/

namespace ScriptEngine

/-- Functions of the `decimal` namespace, which every decimal value answers too. -/
inductive DecimalOp where
  | new
  | fromString
  | fromFloat
  | fromFloatWithExponent
  | avg
  | max
  | min
  | sum
  | setDivisionPrecision
  | getDivisionPrecision
  | setBareJson
  | getBareJson
deriving DecidableEq, Repr

/-- Functions that a host adds to the built-in ones. -/
inductive HostOp where
  /-- An array of the arguments. -/
  | echo
  /-- A general fault with the given text. -/
  | fail
  /-- Calls the first argument with the others. -/
  | apply
  /-- The wrapping sum of integers. -/
  | sum
deriving DecidableEq, Repr

/-- What a built-in function does. -/
inductive Op where
  | print
  | println
  | len
  | newList
  | methods
  | type
  | assert
  | reverse
  | iff
  | newArray
  | deepEqual
  | int
  | uint
  | float
  | str
  | decimal
  | array
  | tuple
  | hash
  | range
  | abs
  | chr
  | ord
  | printf
  | sprintf
  | sscanf
  | isA
  | classOf
  | chan
  | newMutex
  | newRWMutex
  | newCond
  | newOnce
  | newWaitGroup
  | sleep
  | openFile
  | newCsvReader
  | newCsvWriter
  | newLogger
  | dialStream
  | listenStream
  | dialPacket
  | dialPath
  | listenPath
  | newPipe
  | dbOpen
  | newTime
  | newDate
  | unixTime
  | timeNow
  | timeSleep
  | timeParse
  | decimalOp (op : DecimalOp)
  | jsonMarshal
  | jsonUnmarshal
  | xmlMarshal
  | xmlUnmarshal
  | host (op : HostOp)
deriving DecidableEq, Repr

/-- A built-in function: its name and what it does. Built-in functions are compared by
their names. -/
structure Native where
  name : String
  op : Op
deriving DecidableEq, Repr

end ScriptEngine
