import Adaboot.Overwrite
import Adaboot.Uf2.Transfer
import Adaboot.Uf2.Readback
import Adaboot.Serial.Bounds
import Adaboot.Serial.Progress
import Adaboot.Serial.SetState
import Adaboot.Planner.External
import Adaboot.Entry
import Adaboot.Imgtool.Tamper
import Adaboot.Serial.Encrypted
import Adaboot.Planner.SplitPlaced
import Adaboot.Planner.Rerun
import Adaboot.Swap.Scramble
import Adaboot.Swap.Whole
import Adaboot.Loader.Dependencies
import Adaboot.Swap.Inconsistent
import Adaboot.Swap.StatusSource
import Adaboot.Trailer.Ranges
import Adaboot.Loader.CopyImage
import Adaboot.Swap.LastIdx
import Adaboot.Serial.Console
import Adaboot.Image.Signatures
import Adaboot.Loader.RamLoad
import Adaboot.Loader.ResetAddress
import Adaboot.SharedData
import Adaboot.Uf2.Bounds
import Adaboot.Swap.Encrypted
import Adaboot.Planner.Sectors
