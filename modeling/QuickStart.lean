import QuickStart.Lts
import QuickStart.Kmod
import QuickStart.Calls
import QuickStart.Checksum
import QuickStart.Decimal
import QuickStart.Sscanf
import QuickStart.Buffer
import QuickStart.Reader
import QuickStart.Strtoul
import QuickStart.Hsfile
import QuickStart.Roster
import QuickStart.Park
import QuickStart.IrqSig
import QuickStart.IrqSig.Fasync
import QuickStart.IrqPoll
import QuickStart.Maclimit.State
import QuickStart.Maclimit.Step
import QuickStart.Maclimit.Slot
import QuickStart.Maclimit.Listed
import QuickStart.Maclimit.Linked
import QuickStart.Maclimit.Served
import QuickStart.Maclimit.Traffic
import QuickStart.Maclimit.Wake
import QuickStart.Maclimit.Cleanup
import QuickStart.Maclimit.Ledger
import QuickStart.Maclimit.Load
import QuickStart.Maclimit.Check
import QuickStart.Maclimit.Rounds
import QuickStart.Maclimit.Answered
import QuickStart.Maclimit.Proc
import QuickStart.Maclimit.Lines
import QuickStart.Maclimit.Page
import QuickStart.Keyevent.Device
import QuickStart.Keyevent.Step
import QuickStart.Keyevent.Wake
import QuickStart.Keyevent.Delivery
import QuickStart.Keyevent.Registers
import QuickStart.Keyevent.Bounds
import QuickStart.Keyevent.Fault
import QuickStart.Keyevent.Message
import QuickStart.Keyevent.Whole
import QuickStart.Keyevent.Load
import QuickStart.Speedtest.State
import QuickStart.Speedtest.Step
import QuickStart.Speedtest.Writers
import QuickStart.Speedtest.Slots
import QuickStart.Speedtest.Window
import QuickStart.Speedtest.RxHook
import QuickStart.Speedtest.Truth
import QuickStart.Speedtest.Unload
import QuickStart.Speedtest.Timer
import QuickStart.Speedtest.Custody
import QuickStart.Speedtest.Manned
import QuickStart.Speedtest.Writes
import QuickStart.Speedtest.Progress
import QuickStart.Speedtest.Restart
import QuickStart.Speedtest.Exclusive
import QuickStart.Speedtest.Pieces
import QuickStart.Speedtest.Tally
import QuickStart.Speedtest.Loss
import QuickStart.Speedtest.Isolation
import QuickStart.Speedtest.Pacing
import QuickStart.Speedtest.Packet
import QuickStart.Speedtest.Detect
import QuickStart.Speedtest.Count
import QuickStart.Speedtest.Command
import QuickStart.Speedtest.Settings
import QuickStart.Speedtest.Line
import QuickStart.Speedtest.Safe
import QuickStart.Speedtest.Status
import QuickStart.Speedtest.Ready
import QuickStart.Speedtest.Deadline
import QuickStart.Speedtest.Probe
import QuickStart.Des3.Message
import QuickStart.Des3.RoundTrip
import QuickStart.Des3.Limits
import QuickStart.Des3.Formats
import QuickStart.Httpredirect.Callback
import QuickStart.Httpredirect.Valid
import QuickStart.Httpredirect.Frame
import QuickStart.Httpredirect.Exact
import QuickStart.Httpredirect.Answer
import QuickStart.Httpredirect.Proc
import QuickStart.Pktconntrack
