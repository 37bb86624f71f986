import Dnsp2p.Library.Bytes
import Dnsp2p.Library.Bits
import Dnsp2p.Library.Tiling
import Dnsp2p.Library.Least
import Dnsp2p.Library.Place
import Dnsp2p.Fault
import Dnsp2p.Benc.Object
import Dnsp2p.Benc.Decode
import Dnsp2p.Benc.Grammar
import Dnsp2p.Benc.Safety
import Dnsp2p.Benc.Text
import Dnsp2p.Benc.Encode
import Dnsp2p.Benc.Recovery
import Dnsp2p.Benc.Dictionary
import Dnsp2p.Dht.Address
import Dnsp2p.Dht.Storage
import Dnsp2p.Message.Parse
import Dnsp2p.Message.Safety
import Dnsp2p.Message.Build
import Dnsp2p.Message.Object
import Dnsp2p.Message.RoundTrip
import Dnsp2p.Dht.Table
import Dnsp2p.Dht.Change
import Dnsp2p.Dht.Halving
import Dnsp2p.Dht.Shape
import Dnsp2p.Dht.Growth
import Dnsp2p.Dht.TableRun
import Dnsp2p.Dht.Splitting
import Dnsp2p.Dht.Candidates
import Dnsp2p.Dht.Search
import Dnsp2p.Dht.State
import Dnsp2p.Dht.Periodic
import Dnsp2p.Dht.Dispatch
import Dnsp2p.Dht.Intake
import Dnsp2p.Dht.Learning
import Dnsp2p.Dht.Values
import Dnsp2p.Library.Memory
import Dnsp2p.Library.BinaryTree
import Dnsp2p.Library.Run
import Dnsp2p.Ops.RbTree
import Dnsp2p.Ops.Context
import Dnsp2p.Ops.Shape
import Dnsp2p.Ops.Valid
import Dnsp2p.Ops.Ledger
import Dnsp2p.Ops.Teardown
import Dnsp2p.Ops.Balance
import Dnsp2p.Dns.Name
import Dnsp2p.Dns.Labels
import Dnsp2p.Dht.SearchList
import Dnsp2p.Dns.Server
import Dnsp2p.Dns.Docket
import Dnsp2p.Dns.Survival
import Dnsp2p.Dns.Requests
import Dnsp2p.Dns.Pending
import Dnsp2p.Message.Canonical
import Dnsp2p.Message.Krpc
import Dnsp2p.Dht.RateLimit
import Dnsp2p.Dht.SearchNumbers
import Dnsp2p.Library.Numeral
import Dnsp2p.Properties.Grammar
import Dnsp2p.Properties.File
import Dnsp2p.Seccure.Curves
import Dnsp2p.Seccure.Keys
import Dnsp2p.Library.Ladder
import Dnsp2p.Library.SquareRoot
import Dnsp2p.Seccure.NumberTheory
import Dnsp2p.Library.ShortWeierstrass
import Dnsp2p.Seccure.Ecc
import Dnsp2p.Seccure.Group
import Dnsp2p.Seccure.Points
import Dnsp2p.Seccure.Standard
import Dnsp2p.Library.Keystream
import Dnsp2p.Seccure.Aes
import Dnsp2p.Seccure.Protocol
import Dnsp2p.Seccure.Signature
import Dnsp2p.Seccure.Agreement
import Dnsp2p.Seccure.Derivation
import Dnsp2p.Ops.Rebalancing
import Dnsp2p.Library.Records
import Dnsp2p.Library.Keyed
import Dnsp2p.Dht.Announced
import Dnsp2p.Dht.Queries
import Dnsp2p.Dht.Tokens
import Dnsp2p.Dht.Closest
import Dnsp2p.Dht.Restoring
