import Storefront.Archive.Basic
import Storefront.Cli.FileTree
import Storefront.Main
import Storefront.Peer.Connection
import Storefront.Proofs.Frame.Intact
import Storefront.Proofs.Frame.Stream
import Storefront.Proofs.Peer.Accounts
import Storefront.Proofs.Peer.Connection
import Storefront.Proofs.Peer.Dialogue
import Storefront.Proofs.Peer.Handover
import Storefront.Proofs.Peer.Numbering
import Storefront.Proofs.Peer.Reading
import Storefront.Proofs.Peer.Session
import Storefront.Proofs.Peer.Speaker
import Storefront.Proofs.Schema.Anywhere
import Storefront.Proofs.Schema.Arrival
import Storefront.Proofs.Schema.Body
import Storefront.Proofs.Schema.Codec
import Storefront.Proofs.Schema.Delivered
import Storefront.Proofs.Schema.Edits
import Storefront.Proofs.Schema.Equivalent
import Storefront.Proofs.Schema.RoundTrip
import Storefront.Proofs.Schema.Scalar
import Storefront.Proofs.Schema.Stream
import Storefront.Proofs.Schema.Visits
import Storefront.Proofs.Schema.Walk
import Storefront.Proofs.Store.Message
import Storefront.Proofs.Store.Registry
import Storefront.Proofs.Wire.Spans
import Storefront.Proofs.Wire.Written
import Storefront.Store.Configuration
import Storefront.Store.Fingerprint
import Storefront.Proofs.Frame.Reassembly
import Storefront.Proofs.Version.Decode
import Storefront.Proofs.Version.Normal
import Storefront.Proofs.Version.Opening
import Storefront.Proofs.Frame.Delivery
import Storefront.Proofs.Peer.Server
import Storefront.Proofs.Version.Announcement
import Storefront.Proofs.Peer.Agreement
import Storefront.Proofs.Frame.Sending
import Storefront.Proofs.Frame.Torn
import Storefront.Proofs.Wire.Contents
import Storefront.Proofs.Schema.Inspected
import Storefront.Proofs.Schema.Transfer
import Storefront.Proofs.Store.History
import Storefront.Proofs.Schema.Bounds
import Storefront.Proofs.Json.Scalar
import Storefront.Proofs.Json.Document
import Storefront.Proofs.Archive.Contents
import Storefront.Proofs.Archive.RoundTrip
import Storefront.Proofs.Schema.Failure
import Storefront.Proofs.Store.Again
import Storefront.Proofs.Cli.Secrets
import Storefront.Proofs.Frame.Exact
import Storefront.Proofs.Schema.Drained
import Storefront.Proofs.Schema.Sink
import Storefront.Proofs.Schema.Composed
import Storefront.Proofs.Frame.Gathered
import Storefront.Proofs.Version.Order
import Storefront.Proofs.Store.Structural
import Storefront.Proofs.Archive.Acceptance
import Storefront.Proofs.Cli.Digits
import Storefront.Proofs.Store.Item
import Storefront.Proofs.Wire.Positional
import Storefront.Proofs.Version.Satisfied
import Storefront.Proofs.Wire.Confined
import Storefront.Proofs.Peer.Issuing
