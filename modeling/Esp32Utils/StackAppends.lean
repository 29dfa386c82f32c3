import Esp32Utils.LoadableContents
import Esp32Utils.StackRuns

/-! # Appends through SPIFFSDriver

The runs of the stack in which no data file is corrupted, appends among them. Each is a history
over the fallible driver, so no more may be loaded. -/
namespace StackAppends

open ByteStrings InteractionCrash FileSystemDriver SafeFileManipulator FallibleDriver
open AppendHistories ArduinoSpiffs SpiffsDriver HonestDriver StackRuns

variable {getMD5String : Bytes → Bytes} {listing : Disk → Bytes → List Bytes}
  {h : List StackRuns.Event} {l : List AppendHistories.Event} {s : Flash} {g : Guarantees}

def called : StackRuns.Event → Option AppendHistories.Event
  | .did e => some e
  | .corrupted _ _ => none

end StackAppends
