import TupleClient.Addresses
import TupleClient.Bytes
import TupleClient.Catalog.Refresh
import TupleClient.Catalog.Row
import TupleClient.Catalog.Snapshot
import TupleClient.Client
import TupleClient.Deadlines
import TupleClient.Decimal.Binary
import TupleClient.Decimal.Product
import TupleClient.Decimal.Reading
import TupleClient.Decimal.Shortest
import TupleClient.Digest.Sha1
import TupleClient.Endpoint
import TupleClient.Error
import TupleClient.Fields
import TupleClient.Frame
import TupleClient.Greeting
import TupleClient.Handshake
import TupleClient.Lifecycle
import TupleClient.Main
import TupleClient.Membership
import TupleClient.Message
import TupleClient.Outbox
import TupleClient.Pipeline
import TupleClient.Promise
import TupleClient.Proofs.Frame.Stream
import TupleClient.Proofs.Lifecycle.Generations
import TupleClient.Proofs.Pipeline.Accounts
import TupleClient.Proofs.Pipeline.Outcomes
import TupleClient.Proofs.Value.Nesting
import TupleClient.Proofs.Wire.Head
import TupleClient.Proofs.Wire.Number
import TupleClient.Proofs.Wire.RoundTrip
import TupleClient.Proofs.Wire.Written
import TupleClient.Reconnect
import TupleClient.Request
import TupleClient.Response
import TupleClient.Retry
import TupleClient.Settings
import TupleClient.Shell.Arguments
import TupleClient.Shell.Command
import TupleClient.Shell.Literal
import TupleClient.Shell.Prompt
import TupleClient.Shell.Render
import TupleClient.Shell.Session
import TupleClient.Staged
import TupleClient.Text.Base64
import TupleClient.Text.Blank
import TupleClient.Text.Hidden
import TupleClient.Text.Quoted
import TupleClient.Text.Utf8
import TupleClient.Uuid
import TupleClient.Value
import TupleClient.Value.Display
import TupleClient.Value.Double
import TupleClient.Wire.Decoding
import TupleClient.Wire.Encoding
import TupleClient.Wire.Error
import TupleClient.Wire.Form
import TupleClient.Proofs.Wire.Grammar
import TupleClient.Proofs.Wire.Acceptance
import TupleClient.Proofs.Pipeline.Replies
import TupleClient.Proofs.Pipeline.Reading
import TupleClient.Proofs.Pipeline.Closing
import TupleClient.Proofs.Retry.Custody
import TupleClient.Proofs.Retry.Places
import TupleClient.Proofs.Wire.Truncation
import TupleClient.Proofs.Wire.Shortest
import TupleClient.Proofs.Pipeline.Isolation
import TupleClient.Proofs.Pipeline.Sending
import TupleClient.Proofs.Pipeline.Sockets
import TupleClient.Proofs.Pipeline.Resizing
import TupleClient.Proofs.Frame.RoundTrip
import TupleClient.Proofs.Lifecycle.Listeners
import TupleClient.Proofs.Catalog.Refreshing
import TupleClient.Proofs.Retry.StaleSchema
import TupleClient.Proofs.Pipeline.Steps
import TupleClient.Proofs.Pipeline.Timers
import TupleClient.Proofs.Retry.Steps
import TupleClient.Proofs.Retry.Hands
import TupleClient.Proofs.Retry.Wakeups
import TupleClient.Proofs.Retry.Deadlines
import TupleClient.Proofs.Retry.Timeouts
import TupleClient.Proofs.Retry.Delivery
import TupleClient.Proofs.Retry.Losses
import TupleClient.Proofs.Handshake.Login
import TupleClient.Proofs.Client.Runs
import TupleClient.Proofs.Client.Turns
import TupleClient.Proofs.Client.Upkeep
import TupleClient.Proofs.Client.Admission
import TupleClient.Proofs.Client.Refusals
import TupleClient.Proofs.Value.Offence
import TupleClient.Proofs.Wire.Refusal
import TupleClient.Proofs.Frame.Readers
import TupleClient.Proofs.Frame.Payload
import TupleClient.Proofs.Retry.Replaying
import TupleClient.Proofs.Outbox.Conservation
import TupleClient.Proofs.Pipeline.Timetable
import TupleClient.Proofs.Catalog.Joining
import TupleClient.Proofs.Request.Naming
import TupleClient.Proofs.Client.Polling
import TupleClient.Proofs.Client.Bookkeeping
import TupleClient.Proofs.Client.Readings
import TupleClient.Proofs.Client.Ensuring
import TupleClient.Proofs.Client.Fetching
import TupleClient.Proofs.Client.Supervising
import TupleClient.Proofs.Client.Reconnecting
import TupleClient.Proofs.Pipeline.Breaking
import TupleClient.Proofs.Reconnect.Campaigns
import TupleClient.Proofs.Reconnect.Heeding
import TupleClient.Proofs.Client.Endings
import TupleClient.Proofs.Client.Opening
import TupleClient.Proofs.Client.Connecting
import TupleClient.Proofs.Client.Loading
import TupleClient.Proofs.Client.Returning
import TupleClient.Proofs.Client.Finishing
import TupleClient.Proofs.Text.Utf8
import TupleClient.Proofs.Text.Base64
import TupleClient.Proofs.Text.Words
import TupleClient.Proofs.Text.Digits
import TupleClient.Proofs.Membership.Rotation
import TupleClient.Proofs.Handshake.Greeting
import TupleClient.Proofs.Shell.Spelling
import TupleClient.Proofs.Shell.Scanning
import TupleClient.Proofs.Shell.Lines
import TupleClient.Proofs.Shell.Sessions
import TupleClient.Proofs.Handshake.Proving
import TupleClient.Proofs.Deadlines.Entries
import TupleClient.Proofs.Deadlines.Keeping
import TupleClient.Proofs.Promise.Telling
import TupleClient.Proofs.Wire.Places
import TupleClient.Proofs.Wire.Consecutive
