import Mathlib.Data.Char
import Mathlib.Data.List.Lex
import SIPMediaGW.LineTexts
import SIPMediaGW.PythonArithmetic
import SIPMediaGW.PythonJson

/-! # The transcript of a recording

The segments of a recording, what is written for each of them, and the subtitles that
`transcript.py` makes of it next to the video that `entrypoint.sh` joins. The times of a passage
and the durations are rationals; what is computed of them is rounded as the arithmetic says. -/
namespace Transcripts

open LineTexts
open PythonArithmetic
open PythonJson
open Rounding

abbrev Text := List Char

/-- `%0wd`, and `f"{n:0w}"` of an integer: the sign is one of the `w` characters. -/
def padded (width : ℕ) (n : ℤ) : Text :=
  let sign : Text := if n < 0 then ['-'] else []
  let digits := Nat.toDigits 10 n.natAbs
  sign ++ List.replicate (width - sign.length - digits.length) '0' ++ digits

def hundredths (q : ℚ) : ℕ := (roundHalfEven (|q| * 100)).toNat

/-- `f"{q:.2f}"`. -/
def fixed2 (q : ℚ) : Text :=
  (if q < 0 then ['-'] else []) ++ Nat.toDigits 10 (hundredths q / 100) ++
    '.' :: padded 2 (hundredths q % 100 : ℕ)

def hundredth (q : ℚ) : ℚ := (if q < 0 then -1 else 1) * (hundredths q / 100 : ℚ)

/-- Python's `float()` on texts; `none` where it raises `ValueError`, or gives no finite
number, which `formatSrtTime` then raises for. -/
structure PythonFloat where
  arithmetic : Arithmetic
  float : Text → Option ℚ
  float_fixed2 : ∀ q, float (fixed2 q) = some (arithmetic.float (hundredth q))

structure Passage where
  start : ℚ
  stop : ℚ
  text : Text

/-- What is recorded as one segment, and what the transcription server answers when it is
asked: while the recording runs, as often as it is asked, and once more after it. -/
structure Recorded where
  duration : ℚ
  attempts : List (Option (List Passage))
  last : Option (List Passage)

structure Segment where
  number : ℕ
  recorded : Recorded
  processed : Bool
  txt : Option Text

def isSegmentAllowed (segmentText : Text) (blacklist : List Text) : Bool :=
  let inText := segmentText.dropWhile isSpace
  !blacklist.any fun blacklisted => blacklisted == inText

def transcriptLine (ss : Passage) : Text :=
  '[' :: fixed2 ss.start ++ "s -> ".toList ++ fixed2 ss.stop ++ "s] ".toList ++ ss.text ++ ['\n']

def written (blacklist : List Text) (passages : List Passage) : Text :=
  (passages.filter fun ss => isSegmentAllowed ss.text blacklist).flatMap transcriptLine

section Processing

variable (blacklist : List Text)

/-- One turn of the loop that runs while the recording does: only an answer tags the file. -/
def processWhileRecording (s : Segment) (response : Option (List Passage)) : Segment :=
  if s.processed then s
  else match response with
    | some passages => { s with txt := some (written blacklist passages), processed := true }
    | none => s

/-- After the recording the file is tagged in any case. -/
def processAfterRecording (s : Segment) (response : Option (List Passage)) : Segment :=
  if s.processed then s
  else match response with
    | some passages => { s with txt := some (written blacklist passages), processed := true }
    | none => { s with processed := true }

def finished (number : ℕ) (r : Recorded) : Segment :=
  let s : Segment := { number := number, recorded := r, processed := false, txt := none }
  processAfterRecording blacklist (r.attempts.foldl (processWhileRecording blacklist) s) r.last

def directory (recorded : List Recorded) : List Segment :=
  recorded.zipIdx.map fun e => finished blacklist e.2 e.1

end Processing

def Segment.stem (s : Segment) : Text := "segment_".toList ++ padded 3 s.number

def Segment.txtName (s : Segment) : Text := s.stem ++ ".txt".toList

def Segment.mp4Name (s : Segment) : Text :=
  s.stem ++ (if s.processed then ".processed.mp4".toList else ".mp4".toList)

def txtFiles (dir : List Segment) : List Segment :=
  (dir.filter fun s => s.txt.isSome).mergeSort fun a b => decide (a.txtName ≤ b.txtName)

/-- `segments_list.txt`: the files that `/var/recording/segment_*.mp4` matches, in the order of
their bytes, as no locale is set there. The final video is joined from them. -/
def segmentsList (dir : List Segment) : List Segment :=
  dir.mergeSort fun a b => decide (a.mp4Name ≤ b.mp4Name)

structure Subtitle where
  index : ℕ
  startTime : ℚ
  endTime : ℚ
  text : Text

def cut (sep : Text) : Text → Option (Text × Text)
  | [] => if sep = [] then some ([], []) else none
  | c :: cs =>
    if sep <+: c :: cs then some ([], (c :: cs).drop sep.length)
    else (cut sep cs).map fun e => (c :: e.1, e.2)

/-- `re.match(r'\[(.*?)s -> (.*?)s\] (.*)', line)` on a line without its end. The first
occurrence of each mark is tried first, and is the only one that matters: a line that matches
with a later one does so with the first. -/
def matchLine : Text → Option (Text × Text × Text)
  | '[' :: cs => do
    let (first, cs) ← cut "s -> ".toList cs
    let (second, cs) ← cut "s] ".toList cs
    some (first, second, cs)
  | _ => none

/-- `seconds % m`, before it is rounded. -/
def floorMod (seconds m : ℚ) : ℚ := seconds - m * (seconds / m).floor

def formatSrtTime (arithmetic : Arithmetic) (seconds : ℚ) : Text :=
  let hours := (seconds / 3600).floor
  let minutes := (arithmetic.float (floorMod seconds 3600) / 60).floor
  let secs := truncate (arithmetic.float (floorMod seconds 60))
  let millis := truncate (arithmetic.float (arithmetic.float (floorMod seconds 1) * 1000))
  padded 2 hours ++ ':' :: padded 2 minutes ++ ':' :: padded 2 secs ++ ',' :: padded 3 millis

def Subtitle.block (arithmetic : Arithmetic) (c : Subtitle) : Text :=
  Nat.toDigits 10 c.index ++ '\n' :: formatSrtTime arithmetic c.startTime ++ " --> ".toList ++
    formatSrtTime arithmetic c.endTime ++ '\n' :: c.text ++ "\n\n".toList

section Finalisation

variable (py : PythonFloat)

def readLines (offset : ℚ) : ℕ → List Text → Option (List Subtitle)
  | _, [] => some []
  | index, line :: lines =>
    match matchLine line with
    | none => readLines offset index lines
    | some (first, second, text) => do
      let start ← py.float first
      let stop ← py.float second
      let subtitles ← readLines offset (index + 1) lines
      some (⟨index, py.arithmetic.float (start + offset), py.arithmetic.float (stop + offset),
        text⟩ :: subtitles)

def readFiles : ℚ → ℕ → List Segment → Option (List Subtitle)
  | _, _, [] => some []
  | offset, index, s :: files => do
    let subtitles ← readLines py offset index (textLines (s.txt.getD []))
    let duration := py.arithmetic.float s.recorded.duration
    let others ← readFiles (py.arithmetic.float (offset + duration))
      (index + subtitles.length) files
    some (subtitles ++ others)

def finalSubtitles (dir : List Segment) : Option (List Subtitle) := readFiles py 0 1 (txtFiles dir)

def finalTranscript (subtitles : List Subtitle) : Text :=
  subtitles.flatMap (Subtitle.block py.arithmetic)

end Finalisation

end Transcripts
