import Dudlc.Lists
import Dudlc.Listed
import Dudlc.Lookups
import Dudlc.Raw
import Dudlc.Reconnect
import Dudlc.Release
import Dudlc.Tracklist
import Dudlc.Poll
import Dudlc.Named
import Dudlc.Malformed
import Dudlc.Hangup
import Dudlc.Pairs
import Dudlc.Details
import Dudlc.QueueWindow
import Dudlc.Formats
import Dudlc.Single
import Dudlc.CommandLine
import Dudlc.Formatter
import Dudlc.TagLine
import Dudlc.Durations
import Dudlc.Preamp
import Dudlc.Completion
import Dudlc.Cursor
import Dudlc.Rows
import Dudlc.Words
import Dudlc.Unescape
import Dudlc.Ownership
import Dudlc.Credentials
import Dudlc.Windows
import Dudlc.Terminal
import Dudlc.Playbox
