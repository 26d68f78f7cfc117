/-
The class `DisplayBuffer`: a header, a footer, and the latest contents with their
colours and times, up to a capacity.

A `std::string` is its list of bytes and a `std::deque` the list of its entries, front
first.  The time is what `localtime()` says of the moment of the call.
-/
import BsdGdf.Config
import BsdGdf.CString

namespace Gdf

/-- The bytes of a text of ASCII characters. -/
def chars (l : List Char) : Bytes := l.map fun c => UInt8.ofNat c.toNat

/-- The decimal digits that `<<` writes for an integer. -/
def decimal (n : ℤ) : Bytes :=
  if n < 0 then chars ('-' :: Nat.toDigits 10 n.natAbs)
  else chars (Nat.toDigits 10 n.natAbs)

/-- The fields of `struct tm` that are shown. -/
structure Tm where
  tm_hour : ℤ
  tm_min : ℤ
  deriving DecidableEq, Repr

/-- `DisplayBuffer::eColor`. -/
inductive eColor
  | Default
  | Cyan
  | Red
  | Green
  | BrightBlue
  | WhiteCharRedBG
  | WhiteCharBlueBG
  | WhiteCharGrayBG
  deriving DecidableEq, Repr

/-- `struct Content`. -/
structure Content where
  TimeStamp : Bytes
  String : Bytes
  Color : eColor
  deriving DecidableEq, Repr

/-- `class DisplayBuffer`. -/
structure DisplayBuffer where
  mHeader : Bytes
  mFooter : Bytes
  mContentBufferCapacity : ℕ
  mContentBuffer : List Content
  deriving DecidableEq, Repr

namespace DisplayBuffer

/-- `DisplayBuffer::DisplayBuffer()`. -/
def new : DisplayBuffer where
  mHeader := chars ['H', 'E', 'A', 'D', 'E', 'R']
  mFooter := chars ['F', 'O', 'O', 'T', 'E', 'R']
  mContentBufferCapacity := 1024
  mContentBuffer := []

/-- `Clear()`. -/
def clear (buf : DisplayBuffer) : DisplayBuffer := { buf with mContentBuffer := [] }

/-- `std::setfill('0') << std::setw(2) << n`. -/
def twoDigits (n : ℤ) : Bytes :=
  chars (List.replicate (2 - (decimal n).length) '0') ++ decimal n

/-- `getCurrentTimeString(str)`. -/
def getCurrentTimeString (localTime : Tm) : Bytes :=
  twoDigits localTime.tm_hour ++ chars [':'] ++ twoDigits localTime.tm_min

/-- `PushContent(str, color)`. -/
def pushContent (buf : DisplayBuffer) (str : Bytes) (color : eColor) (localTime : Tm) :
    DisplayBuffer :=
  let toPush : Content := ⟨getCurrentTimeString localTime, str, color⟩
  let contents := buf.mContentBuffer ++ [toPush]
  if contents.length > buf.mContentBufferCapacity then
    { buf with mContentBuffer := contents.tail }
  else
    { buf with mContentBuffer := contents }

/-- `SetHeader(str)`. -/
def setHeader (buf : DisplayBuffer) (str : Bytes) : DisplayBuffer := { buf with mHeader := str }

/-- `SetFooter(str)`. -/
def setFooter (buf : DisplayBuffer) (str : Bytes) : DisplayBuffer := { buf with mFooter := str }

/-- `SetContentBufferCapacity(capacity)`. -/
def setContentBufferCapacity (buf : DisplayBuffer) (capacity : ℕ) : DisplayBuffer :=
  { buf with mContentBufferCapacity := capacity }

end DisplayBuffer

end Gdf
