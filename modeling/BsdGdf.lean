import BsdGdf.Runs
import BsdGdf.Streams
import BsdGdf.Ledger
import BsdGdf.Pieces
import BsdGdf.LineEdit
import BsdGdf.Numerals
import BsdGdf.Terminal
import BsdGdf.Config
import BsdGdf.CString
import BsdGdf.Network
import BsdGdf.NetworkCalls
import BsdGdf.SendBuffer
import BsdGdf.RecvBuffer
import BsdGdf.SessionTable
import BsdGdf.Lifetime
import BsdGdf.Disconnect
import BsdGdf.Mailboxes
import BsdGdf.DescriptorUse
import BsdGdf.KernelQueue
import BsdGdf.KernelEvent
import BsdGdf.DisplayBuffer
import BsdGdf.ContentBuffer
import BsdGdf.GlobalLogger
import BsdGdf.NetworkLog
import BsdGdf.LogLines
import BsdGdf.ServerLog
import BsdGdf.LogThreads
import BsdGdf.TerminalMode
import BsdGdf.DisplayConsole
import BsdGdf.Refresh
import BsdGdf.Prompt
import BsdGdf.MultiByte
import BsdGdf.Layout
import BsdGdf.BarText
import BsdGdf.View
import BsdGdf.Watch
import BsdGdf.Keys
