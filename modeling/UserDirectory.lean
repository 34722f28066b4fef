import UserDirectory.Library.Assertion
import UserDirectory.Library.AssocList
import UserDirectory.Library.CInt
import UserDirectory.Library.Descriptors
import UserDirectory.Library.Fuel
import UserDirectory.Library.Getopt
import UserDirectory.Library.LittleEndian
import UserDirectory.Library.Machine
import UserDirectory.Library.Directory
import UserDirectory.Library.Linearizability
import UserDirectory.Library.Socket
import UserDirectory.Library.Stdio
import UserDirectory.Constants
import UserDirectory.Net
import UserDirectory.SequentialMap
import UserDirectory.MyStorage
import UserDirectory.Persistence
import UserDirectory.Saving
import UserDirectory.Loading
import UserDirectory.Responses
import UserDirectory.Parsing
import UserDirectory.Service
import UserDirectory.Reachable
import UserDirectory.Requests
import UserDirectory.Authorization
import UserDirectory.History
import UserDirectory.Truncation
import UserDirectory.Profiles
import UserDirectory.Answers
import UserDirectory.Downloads
import UserDirectory.CutResponses
import UserDirectory.Restart
import UserDirectory.Faults
import UserDirectory.Acceptance
import UserDirectory.Cuts
import UserDirectory.Exchanges
import UserDirectory.Secrecy
import UserDirectory.Independence
import UserDirectory.UserList
import UserDirectory.MapRefinement
import UserDirectory.Receiving
import UserDirectory.Bounds
import UserDirectory.ClientBounds
import UserDirectory.Uploads
import UserDirectory.Conversations
import UserDirectory.Arguments
import UserDirectory.Accepting
import UserDirectory.Retries
import UserDirectory.Sockets
import UserDirectory.ClientMain
import UserDirectory.ServerMain
import UserDirectory.Durability
import UserDirectory.Concurrency
import UserDirectory.Lives
import UserDirectory.Programs
