import Xv6.Buf
import Xv6.Chain
import Xv6.Log.Header
import Xv6.Log.Commit
import Xv6.Log.Recovery
import Xv6.Log.GroupCommit
import Xv6.Log.Safety
import Xv6.Log.Admission
import Xv6.Log.Atomicity
import Xv6.Log.Progress
import Xv6.Ide.Driver
import Xv6.Ide.Queue
import Xv6.Ide.Service
import Xv6.Ide.Progress
import Xv6.Ide.Probe
import Xv6.Kalloc.Kmem
import Xv6.Kalloc.Pages
import Xv6.Kalloc.Entrypgdir
import Xv6.Kalloc.Startothers
import Xv6.Boot.Readseg
import Xv6.Boot.Bootmain
import Xv6.Boot.Sign
