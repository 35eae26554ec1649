import Urt.Registry.Simulation
import Urt.Registry.NameSearch
import Urt.Registry.StoredNames
import Urt.Protocol.Ownership
import Urt.Protocol.Counting
import Urt.Posix.SharedNames
import Urt.Posix.Dump
import Urt.Posix.Unwind
import Urt.Posix.ForceClear
import Urt.Posix.Kinds
import Urt.Posix.Clear
import Urt.Posix.DumpTool
import Urt.Posix.TaskQueries
import Urt.Posix.TaskLifetime
import Urt.Lock.Simulated
import Urt.Lock.BackEnds
import Urt.Time.Sleep
import Urt.BiSpace.GlobalSem
import Urt.Setup.Calibration
import Urt.Setup.Posix
import Urt.Param.Ownership
import Urt.Param.Bools
import Urt.Setup.Recovery
import Urt.Rtai.Lifetime
import Urt.Rtai.Undo
import Urt.Rtai.Setup
