import PhpSandbox.Calendar.Gregorian
import PhpSandbox.Daemon.Decoding
import PhpSandbox.Daemon.UrlScan
import PhpSandbox.Ext.Activation
import PhpSandbox.Ext.CreateApp
import PhpSandbox.Ext.Privilege
import PhpSandbox.Filter.Logical
import PhpSandbox.Fpm.AllowedClients
import PhpSandbox.Fpm.Shutdown
import PhpSandbox.Fpm.Stdin
import PhpSandbox.Fs.Posix
import PhpSandbox.Json.Texts
import PhpSandbox.Mysqlnd.NetLength
import PhpSandbox.Output.Buffering
import PhpSandbox.Post.Multipart
import PhpSandbox.Post.Variables
import PhpSandbox.Sandbox.Appid
import PhpSandbox.Sandbox.Directories
import PhpSandbox.Sandbox.Paging
import PhpSandbox.Sandbox.Tenants
import PhpSandbox.Sapi.Headers
import PhpSandbox.Session.Files
import PhpSandbox.Session.Serializers
import PhpSandbox.Spl.Heap
import PhpSandbox.Standard.Csv
import PhpSandbox.Standard.Math
import PhpSandbox.Standard.Similar
import PhpSandbox.Standard.StripTags
import PhpSandbox.Standard.Strtr
import PhpSandbox.Streams.Temp
import PhpSandbox.Zend.HashRefinement
import PhpSandbox.Zend.MmLimit
import PhpSandbox.Zend.Operators
