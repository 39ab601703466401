import MquerySru.Query.Ast
import MquerySru.Query.Lexer
import MquerySru.Query.Parser
import MquerySru.Query.ParserInvariant
import MquerySru.Query.ParserComplete
import MquerySru.Query.RoundTrip
import MquerySru.Query.Termination
import MquerySru.Query.Language
import MquerySru.Query.ErrorPosition
import MquerySru.Broker.Adapter
import MquerySru.Broker.Waiter
import MquerySru.Broker.Correlation
import MquerySru.Broker.Publish
import MquerySru.Broker.Listeners
import MquerySru.Handler.Request
import MquerySru.Handler.Rows
import MquerySru.Handler.Jobs
import MquerySru.Handler.V12
import MquerySru.Handler.SruV12
import MquerySru.Handler.Transmission
import MquerySru.Handler.Actions
