import Tunlit.Lib.Runs
import Tunlit.Lib.CreditPipe
import Tunlit.Lib.Chunks
import Tunlit.Lib.Insertion
import Tunlit.Lib.Leases
import Tunlit.Js.Text
import Tunlit.Access.Address
import Tunlit.Access.Policy
import Tunlit.Access.Store
import Tunlit.Registry.Names
import Tunlit.Registry.State
import Tunlit.Registry.Register
import Tunlit.Registry.System
import Tunlit.Registry.Leases
import Tunlit.Registry.Steps
import Tunlit.Registry.Reach
import Tunlit.Registry.Online
import Tunlit.Registry.Removal
import Tunlit.Registry.Agreement
import Tunlit.Mux.Frames
import Tunlit.Mux.Server
import Tunlit.Mux.Cli
import Tunlit.Mux.System
import Tunlit.Mux.Ends
import Tunlit.Mux.Simulation
import Tunlit.Mux.FlowControl
import Tunlit.Mux.Delivery
import Tunlit.Logs.Connections
import Tunlit.Logs.Flushing
import Tunlit.Control.Handshake
import Tunlit.Control.Admission
import Tunlit.Registry.Fields
import Tunlit.Registry.Calls
import Tunlit.Registry.Joiners
import Tunlit.Control.Relays
import Tunlit.Control.Rules
import Tunlit.Control.Teardown
import Tunlit.Client.Flags
import Tunlit.Registry.Survival
import Tunlit.Registry.Holders
import Tunlit.Registry.Occupants
import Tunlit.Api.Tables
import Tunlit.Api.Calls
import Tunlit.Api.System
import Tunlit.Api.Turns
import Tunlit.Api.Steps
import Tunlit.Api.Quotas
import Tunlit.Api.Ownership
import Tunlit.Api.Revocation
import Tunlit.Access.Guesses
import Tunlit.Proxy.RequestInfo
import Tunlit.WebSocket.Log
import Tunlit.Stats.Metering
import Tunlit.Proxy.Logged
import Tunlit.Proxy.Held
import Tunlit.Proxy.Streams
import Tunlit.Proxy.Queries
import Tunlit.Accounts.Calls
import Tunlit.Lib.Turns
import Tunlit.Accounts.Rows
import Tunlit.Accounts.Admins
import Tunlit.Accounts.SignIns
import Tunlit.Accounts.Subjects
import Tunlit.Settings.Restarts
import Tunlit.Settings.Setup
import Tunlit.Devices.Pairing
import Tunlit.Client.Resets
import Tunlit.Client.Shaping
import Tunlit.Client.Shapes
import Tunlit.Client.Mounts
import Tunlit.Client.Decoding
import Tunlit.Client.Files
import Tunlit.Client.Browsing
import Tunlit.Client.Flows
import Tunlit.Tls.Requests
import Tunlit.Tls.Domains
import Tunlit.Mux.Mixing
import Tunlit.Database.Resuming
import Tunlit.Visitors.Flushing
import Tunlit.Logs.Sniffing
import Tunlit.Access.Ranges
import Tunlit.Access.Saved
import Tunlit.Proxy.Decisions
import Tunlit.Proxy.Passing
import Tunlit.Proxy.Spellings
import Tunlit.Proxy.Replays
import Tunlit.Proxy.Pages
import Tunlit.Stats.Usage
import Tunlit.Registry.Sharing
import Tunlit.Client.Links
import Tunlit.Client.Ranges
import Tunlit.Mux.Histories
import Tunlit.Access.Passes
import Tunlit.Accounts.Challenges
import Tunlit.Api.Dispatch
import Tunlit.Lib.Base64
import Tunlit.Lib.Retention
import Tunlit.Logs.Har
import Tunlit.Logs.Pruning
import Tunlit.Client.Owning
