import Ldap.Ber.Buffer
import Ldap.Ber.Reader
import Ldap.Filter.Codec
import Ldap.Filter.Text
import Ldap.Message.Codec
import Ldap.Message.Reply
import Ldap.Text.Numeral
import Ldap.Text.Quoted
import Ldap.Text.Utf8
import Ldap.Config.Build
import Ldap.Config.Reader
import Ldap.Control.Response
import Ldap.Failure
import Ldap.Entry.Match
import Ldap.Directory.Identity
import Ldap.Directory.Update
import Ldap.Sasl.Plain
import Ldap.Extended.Basic
import Ldap.Metrics.Endpoint
import Ldap.Net.Listen
import Ldap.Main
import Ldap.Proofs.Ber.Aligned
import Ldap.Proofs.Ber.Answer
import Ldap.Proofs.Ber.Arrival
import Ldap.Proofs.Ber.Buffer
import Ldap.Proofs.Ber.Cells
import Ldap.Proofs.Ber.Compositional
import Ldap.Proofs.Ber.Consumes
import Ldap.Proofs.Ber.Cut
import Ldap.Proofs.Ber.Definite
import Ldap.Proofs.Ber.Delivery
import Ldap.Proofs.Ber.Draw
import Ldap.Proofs.Ber.Element
import Ldap.Proofs.Ber.Ending
import Ldap.Proofs.Ber.Finds
import Ldap.Proofs.Ber.Integer
import Ldap.Proofs.Ber.Length
import Ldap.Proofs.Ber.Lockstep
import Ldap.Proofs.Ber.Meets
import Ldap.Proofs.Ber.Moves
import Ldap.Proofs.Ber.Narrow
import Ldap.Proofs.Ber.Quiet
import Ldap.Proofs.Ber.Reads
import Ldap.Proofs.Ber.Script
import Ldap.Proofs.Ber.Slice
import Ldap.Proofs.Ber.Takes
import Ldap.Proofs.Ber.Writer
import Ldap.Proofs.Config.Loading
import Ldap.Proofs.Control.Admission
import Ldap.Proofs.Control.Decision
import Ldap.Proofs.Control.Framing
import Ldap.Proofs.Control.Paged
import Ldap.Proofs.Control.Sent
import Ldap.Proofs.Control.Value
import Ldap.Proofs.Directory.Ancestor
import Ldap.Proofs.Directory.Depth
import Ldap.Proofs.Directory.Hierarchy
import Ldap.Proofs.Directory.Naming
import Ldap.Proofs.Directory.Preview
import Ldap.Proofs.Directory.Renaming
import Ldap.Proofs.Directory.Run
import Ldap.Proofs.Directory.Scope
import Ldap.Proofs.Directory.Search
import Ldap.Proofs.Directory.Spelling
import Ldap.Proofs.Directory.Store
import Ldap.Proofs.Directory.Table
import Ldap.Proofs.Directory.Users
import Ldap.Proofs.Directory.Written
import Ldap.Proofs.Dn.Key
import Ldap.Proofs.Dn.Naming
import Ldap.Proofs.Dn.Parent
import Ldap.Proofs.Dn.Split
import Ldap.Proofs.Dn.Value
import Ldap.Proofs.Dn.Verbatim
import Ldap.Proofs.Entry.Change
import Ldap.Proofs.Entry.Edit
import Ldap.Proofs.Entry.Increment
import Ldap.Proofs.Entry.Naming
import Ldap.Proofs.Entry.Order
import Ldap.Proofs.Entry.Parts
import Ldap.Proofs.Entry.Recased
import Ldap.Proofs.Entry.Removal
import Ldap.Proofs.Entry.Table
import Ldap.Proofs.Except
import Ldap.Proofs.Extended.PasswordModify
import Ldap.Proofs.Extended.Replacement
import Ldap.Proofs.Filter.Codec
import Ldap.Proofs.Filter.Framing
import Ldap.Proofs.Filter.Nesting
import Ldap.Proofs.Filter.Substrings
import Ldap.Proofs.Filter.Text
import Ldap.Proofs.Message.Canonical
import Ldap.Proofs.Message.Codec
import Ldap.Proofs.Message.Framing
import Ldap.Proofs.Message.Program
import Ldap.Proofs.Message.Steps
import Ldap.Proofs.Message.Stream
import Ldap.Proofs.Message.Termination
import Ldap.Proofs.Message.Timeout
import Ldap.Proofs.Sasl.Credentials
import Ldap.Proofs.Sasl.Plain
import Ldap.Proofs.Server.Session
import Ldap.Proofs.Service.Bind
import Ldap.Proofs.Service.Counting
import Ldap.Proofs.Service.Identity
import Ldap.Proofs.Service.Paging
import Ldap.Proofs.Service.Preview
import Ldap.Proofs.Service.Response
import Ldap.Proofs.Service.Snapshot
import Ldap.Proofs.Service.Sorting
import Ldap.Proofs.Service.View
import Ldap.Proofs.Text.Ascii
import Ldap.Proofs.Text.Blank
import Ldap.Proofs.Text.Numeral
